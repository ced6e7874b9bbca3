import Interaction.Proofs.Catalog.Load
import Interaction.Proofs.Channels

/-!
This module contains the histories of a catalog. Whatever is asked of it, and whether or not it is
done, a protocol that is registered under a name stays there, and what is added has a new name.
-/

namespace Interaction

namespace Catalog

inductive Request where
  | insert (name : String) (protocol : Protocol)
  | loadFile (name : String) (content : Except Unreadable String) (r : Reporter)

def Request.offered : Request → List (String × Protocol)
  | .insert name protocol => [(name, protocol)]
  | .loadFile name content r => (Definition.loadFile name content r).1.toOption.getD []

def answer (c : Catalog) : Request → Except Fault (List String) × Catalog
  | .insert name protocol =>
    match c.insert name protocol with
    | .ok c' => (.ok [name], c')
    | .error fault => (.error fault, c)
  | .loadFile name content r =>
    ((c.loadFile name content r).1, (c.loadFile name content r).2.1)

def after (c : Catalog) (requests : List Request) : Catalog :=
  requests.foldl (fun c request => (c.answer request).2) c

variable {c c' : Catalog} {name : String} {protocol : Protocol} {fault : Fault}
variable {ps added : List (String × Protocol)} {content : Except Unreadable String} {r : Reporter}

theorem get_eq_ok_iff : c.get name = .ok protocol ↔ c.protocols.get? name = some protocol := by
  unfold get
  split
  . next found => rw [found, Except.ok.injEq, Option.some.injEq]
  . next missing => simp [missing]

theorem mem_names_iff : name ∈ c.names ↔ ∃ protocol, c.get name = .ok protocol := by
  simp only [get_eq_ok_iff]
  exact Table.mem_keys_iff

theorem length_names (c : Catalog) : c.names.length = c.size :=
  List.length_map _

theorem pairwise_names (c : Catalog) : c.names.Pairwise (· < ·) := by
  unfold names Table.keys
  rw [List.pairwise_map]
  exact c.protocols.ascending

theorem insert_eq_error_iff_mem_names : c.insert name protocol = .error fault ↔
    name ∈ c.names ∧ fault = .duplicateProtocol name := by
  rw [insert_eq_error_iff, Table.contains_iff]
  exact and_congr_left fun _ => Table.mem_keys_iff.symm

namespace Extends

theorem get_of_get (h : c.Extends added c') (found : c.get name = .ok protocol) :
    c'.get name = .ok protocol := by
  rw [get_eq_ok_iff] at *
  have absent : added.lookup name = none := by
    rw [List.lookup_eq_none_iff]
    intro p mem
    by_contra same
    have fresh := h.fresh p mem
    rw [← (show name = p.1 by simpa using same), Table.contains, found] at fresh
    cases fresh
  rw [h.get?_eq, absent, Option.none_or, found]

theorem get_or_mem (h : c.Extends added c') (found : c'.get name = .ok protocol) :
    c.get name = .ok protocol ∨ (name, protocol) ∈ added := by
  rw [get_eq_ok_iff] at *
  rw [h.get?_eq, Option.or_eq_some_iff] at found
  rcases found with new | old
  . exact .inr ((Table.lookup_eq_some_iff_mem h.nodup).1 new)
  . exact .inl old.2

end Extends

theorem exists_extends_loadFile (c : Catalog) (name : String) (content : Except Unreadable String)
    (r : Reporter) :
    ∃ added rest, (Request.loadFile name content r).offered = added ++ rest ∧
      c.Extends added (c.loadFile name content r).2.1 ∧
      ∀ names, (c.loadFile name content r).1 = .ok names →
        rest = [] ∧ names = added.map (·.1) := by
  simp only [Request.offered, loadFile]
  match loaded : Definition.loadFile name content r with
  | (.error fault, r') =>
    refine ⟨[], [], rfl, Extends.refl c, ?_⟩
    intro names ok
    cases ok
  | (.ok ps, r') =>
    simp only [Except.toOption, Option.getD_some]
    match inserted : c.insertAll ps with
    | (.ok (), c') =>
      refine ⟨ps, [], (List.append_nil ps).symm, extends_of_insertAll inserted, ?_⟩
      intro names ok
      cases ok
      exact ⟨rfl, rfl⟩
    | (.error fault, c') =>
      obtain ⟨before, last, rest, eq, _, _, ext⟩ := exists_extends_of_insertAll inserted
      refine ⟨before, last :: rest, eq, ext, ?_⟩
      intro names ok
      cases ok

theorem exists_extends_answer (c : Catalog) (request : Request) :
    ∃ added rest, request.offered = added ++ rest ∧ c.Extends added (c.answer request).2 ∧
      ∀ names, (c.answer request).1 = .ok names → rest = [] ∧ names = added.map (·.1) := by
  cases request with
  | loadFile name content r => exact exists_extends_loadFile c name content r
  | insert name protocol =>
    unfold answer
    match inserted : c.insert name protocol with
    | .error fault =>
      refine ⟨[], [(name, protocol)], rfl, ?_, ?_⟩
      . simp only [inserted]
        exact Extends.refl c
      . intro names ok
        simp only [inserted] at ok
        cases ok
    | .ok c' =>
      obtain ⟨free, rfl⟩ := insert_eq_ok_iff.1 inserted
      refine ⟨[(name, protocol)], [], rfl, ?_, ?_⟩
      . simp only [inserted]
        exact (Extends.refl _).cons free
      . intro names ok
        simp only [inserted] at ok
        cases ok
        exact ⟨rfl, rfl⟩

theorem after_append (c : Catalog) (requests later : List Request) :
    c.after (requests ++ later) = (c.after requests).after later :=
  List.foldl_append

theorem get_after_of_get (requests : List Request) (found : c.get name = .ok protocol) :
    (c.after requests).get name = .ok protocol := by
  induction requests generalizing c with
  | nil => exact found
  | cons request requests ih =>
    obtain ⟨added, rest, _, ext, _⟩ := c.exists_extends_answer request
    exact ih (ext.get_of_get found)

theorem get_or_offered_of_after {requests : List Request}
    (found : (c.after requests).get name = .ok protocol) :
    c.get name = .ok protocol ∨ ∃ request ∈ requests, (name, protocol) ∈ request.offered := by
  induction requests generalizing c with
  | nil => exact .inl found
  | cons request requests ih =>
    rcases ih found with old | ⟨later, mem, offered⟩
    . obtain ⟨added, rest, eq, ext, _⟩ := c.exists_extends_answer request
      refine (ext.get_or_mem old).imp_right ?_
      intro mem
      refine ⟨request, List.mem_cons_self, ?_⟩
      rw [eq]
      exact List.mem_append_left rest mem
    . exact .inr ⟨later, List.mem_cons_of_mem request mem, offered⟩

/--
After any history of a catalog, what is registered stays as it is in every later history; a request
adds only protocols under new names, all that it offers if it succeeds. A name can be registered
unless it is there already. The names ascend and are those under which there is a protocol. Each
protocol there was in the catalog at first or was offered by a request, its language mentions
declared channels only, and it is what is made of its own description, channels and language.
-/
theorem history_keeps_registered (start : Catalog) (requests : List Request) :
    (∀ name p later, (start.after requests).get name = .ok p →
      (start.after (requests ++ later)).get name = .ok p) ∧
    (∀ request, ∃ added rest, request.offered = added ++ rest ∧
      (start.after requests).Extends added (start.after (requests ++ [request])) ∧
      ∀ names, ((start.after requests).answer request).1 = .ok names →
        rest = [] ∧ names = added.map (·.1)) ∧
    (∀ name p fault, (start.after requests).insert name p = .error fault ↔
      name ∈ (start.after requests).names ∧ fault = .duplicateProtocol name) ∧
    (start.after requests).names.Pairwise (· < ·) ∧
    (∀ name, name ∈ (start.after requests).names ↔
      ∃ p, (start.after requests).get name = .ok p) ∧
    ∀ name p, (start.after requests).get name = .ok p →
      (start.get name = .ok p ∨ ∃ request ∈ requests, (name, p) ∈ request.offered) ∧
      (∀ e ∈ p.language.events, p.channels.declares e = true) ∧
      p.automaton = .compile p.language ∧
      Protocol.new p.description p.channels p.language = .ok p := by
  refine ⟨?_, ?_, ?_, pairwise_names _, ?_, ?_⟩
  . intro name p later found
    rw [after_append]
    exact get_after_of_get later found
  . intro request
    rw [after_append]
    exact exists_extends_answer _ request
  . intro name p fault
    exact insert_eq_error_iff_mem_names
  . intro name
    exact mem_names_iff
  . intro name p found
    exact ⟨get_or_offered_of_after found, p.declared, p.automaton_eq, p.new_eq_self⟩

theorem history_keeps_registered_failed :
    let old := "protocol old \x7b in a: T; language \x7b in:a \x7d \x7d"
    let new := "protocol new \x7b in a: T; language \x7b in:a \x7d \x7d"
    let first := Request.loadFile "first" (.ok old) (.new false true)
    let second := Request.loadFile "second" (.ok (new ++ old)) (.new false true)
    ((empty.after [first]).answer second).1 = .error (.duplicateProtocol "old") ∧
    (empty.after [first, second]).names = ["new", "old"] ∧
    ∃ p, (empty.after [first]).get "old" = .ok p ∧
      (empty.after [first, second]).get "old" = .ok p ∧
      p.automaton = .compile p.language := by
  intro old new first second
  have names : (empty.after [first]).names = ["old"] := by decide +kernel
  obtain ⟨stays, _, _, _, present, stored⟩ := history_keeps_registered empty [first]
  obtain ⟨p, found⟩ := (present "old").1 (by simp [names])
  refine ⟨by decide +kernel, by decide +kernel, p, found, ?_, ?_⟩
  . exact stays "old" p [second] found
  . exact (stored "old" p found).2.2.1

end Catalog

end Interaction
