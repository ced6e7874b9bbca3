import Interaction.Automaton.Basic
import Mathlib.Logic.Relation

/-!
This module contains paths through automata. A path is labelled with the events of its edges; silent
edges leave no trace in the label.
-/

namespace Interaction

namespace Automaton

open Relation

def HasEdge (a : Automaton) (source : Nat) (label : Option Event) (target : Nat) : Prop :=
  ⟨label, target⟩ ∈ a.exitsFrom source

def Silent (a : Automaton) (source target : Nat) : Prop := a.HasEdge source none target

def Closed (a : Automaton) : Prop :=
  ∀ {source : Nat} {label : Option Event} {target : Nat},
    a.HasEdge source label target → target < a.nodes

inductive Path (a : Automaton) : Nat → List Event → Nat → Prop where
  | done (node : Nat) : Path a node [] node
  | silent {p q r : Nat} {w : List Event} : a.Silent p q → Path a q w r → Path a p w r
  | event {p q r : Nat} {e : Event} {w : List Event} :
    a.HasEdge p (some e) q → Path a q w r → Path a p (e :: w) r

variable {a : Automaton} {p q r node : Nat} {e : Event} {v w : List Event}

theorem mem_silentTargets : q ∈ a.silentTargets p ↔ a.Silent p q := by
  unfold silentTargets Silent HasEdge
  simp only [List.mem_map, List.mem_filter, Option.isNone_iff_eq_none]
  constructor
  . rintro ⟨⟨label, target⟩, ⟨mem, rfl⟩, rfl⟩
    exact mem
  . intro mem
    exact ⟨_, ⟨mem, rfl⟩, rfl⟩

theorem mem_targetsOf : q ∈ a.targetsOf e p ↔ a.HasEdge p (some e) q := by
  unfold targetsOf HasEdge
  simp only [List.mem_map, List.mem_filter, beq_iff_eq]
  constructor
  . rintro ⟨⟨label, target⟩, ⟨mem, rfl⟩, rfl⟩
    exact mem
  . intro mem
    exact ⟨_, ⟨mem, rfl⟩, rfl⟩

theorem mem_eventsFrom : e ∈ a.eventsFrom p ↔ ∃ q, a.HasEdge p (some e) q := by
  unfold eventsFrom HasEdge
  simp only [List.mem_filterMap]
  constructor
  . rintro ⟨⟨label, target⟩, mem, rfl⟩
    exact ⟨target, mem⟩
  . rintro ⟨target, mem⟩
    exact ⟨_, mem, rfl⟩

theorem HasEdge.source_lt {label : Option Event} (h : a.HasEdge p label q) : p < a.nodes := by
  unfold HasEdge exitsFrom at h
  cases Nat.lt_or_ge p a.exits.size with
  | inl inside => exact inside
  | inr beyond =>
    rw [Array.getElem?_eq_none beyond] at h
    simp at h

theorem Path.append (first : a.Path p v q) (second : a.Path q w r) : a.Path p (v ++ w) r := by
  induction first with
  | done => exact second
  | silent edge _ ih => exact .silent edge (ih second)
  | event edge _ ih => exact .event edge (ih second)

theorem Path.split (path : a.Path p (v ++ w) r) : ∃ q, a.Path p v q ∧ a.Path q w r := by
  generalize whole : v ++ w = u at path
  -- the cut is found where the events of `v` are used up
  induction path generalizing v with
  | done node =>
    rw [List.append_eq_nil_iff] at whole
    obtain ⟨rfl, rfl⟩ := whole
    exact ⟨node, .done node, .done node⟩
  | silent edge _ ih =>
    obtain ⟨q, before, after⟩ := ih whole
    exact ⟨q, .silent edge before, after⟩
  | @event p _ _ e u edge rest ih =>
    cases v with
    | nil =>
      rw [List.nil_append] at whole
      subst whole
      exact ⟨p, .done p, .event edge rest⟩
    | cons e' v =>
      rw [List.cons_append, List.cons.injEq] at whole
      obtain ⟨rfl, whole⟩ := whole
      obtain ⟨q, before, after⟩ := ih whole
      exact ⟨q, .event edge before, after⟩

theorem Path.of_silent (h : ReflTransGen a.Silent p q) : a.Path p [] q := by
  induction h using ReflTransGen.head_induction_on with
  | refl => exact .done q
  | head edge _ ih => exact .silent edge ih

theorem path_nil_iff : a.Path p [] q ↔ ReflTransGen a.Silent p q := by
  constructor
  . intro path
    generalize label : [] = w at path
    induction path with
    | done => exact .refl
    | silent edge _ ih => exact .head edge (ih label)
    | event => simp at label
  . exact Path.of_silent

theorem path_singleton_iff :
    a.Path p [e] r ↔ ∃ q q', ReflTransGen a.Silent p q ∧ a.HasEdge q (some e) q' ∧
      ReflTransGen a.Silent q' r := by
  constructor
  . intro path
    generalize label : [e] = w at path
    induction path with
    | done => simp at label
    | silent edge _ ih =>
      obtain ⟨q, q', before, step, after⟩ := ih label
      exact ⟨q, q', .head edge before, step, after⟩
    | event edge rest =>
      obtain ⟨rfl, rfl⟩ := List.cons.inj label
      exact ⟨_, _, .refl, edge, path_nil_iff.1 rest⟩
  . rintro ⟨q, q', before, step, after⟩
    have first : a.Path p [] q := .of_silent before
    have second : a.Path q [e] r := .event step (.of_silent after)
    exact first.append second

theorem Closed.lt_of_silent (closed : a.Closed) (h : ReflTransGen a.Silent p q)
    (start : p < a.nodes) : q < a.nodes := by
  cases h.cases_tail with
  | inl same => omega
  | inr step =>
    obtain ⟨_, _, edge⟩ := step
    exact closed edge

theorem Closed.lt_of_path (closed : a.Closed) (path : a.Path p w q) (start : p < a.nodes) :
    q < a.nodes := by
  induction path with
  | done => exact start
  | silent edge _ ih => exact ih (closed edge)
  | event edge _ ih => exact ih (closed edge)

end Automaton

end Interaction
