import Interaction.Proofs.Supervisor.Steps

/-!
This module contains a logic for two runs side by side. It says how far their failures and their
transcripts may differ, while the states of the node and the sessions are the same.
-/

namespace Interaction

/-- How far the failures and the transcripts of two runs may differ. -/
structure Likeness where
  failures : Failure → Failure → Prop
  transcripts : Transcript → Transcript → Prop
  nil : transcripts [] []
  append : ∀ {t u t' u' : Transcript},
    transcripts t u → transcripts t' u' → transcripts (t ++ t') (u ++ u')

inductive Likeness.Results {α : Type} (l : Likeness) :
    Except Failure α → Except Failure α → Prop where
  | ok (a : α) : l.Results (.ok a) (.ok a)
  | error {f g : Failure} (like : l.failures f g) : l.Results (.error f) (.error g)

structure Progress.Matches {σ : Type} (p q : Progress σ) : Prop where
  state : p.state = q.state
  session : p.session = q.session

namespace Activity

variable {σ α β : Type} {l : Likeness} {m n : Activity σ α} {f g : α → Activity σ β}

/-- Whether two activities do the same from matching progresses, as far as a likeness tells. -/
def Alike (l : Likeness) (m n : Activity σ α) : Prop :=
  ∀ p q : Progress σ, p.Matches q →
    l.Results (m p).1 (n q).1 ∧ (m p).2.1.Matches (n q).2.1 ∧ l.transcripts (m p).2.2 (n q).2.2

namespace Alike

theorem of_quiet (h : ∀ p q : Progress σ, p.Matches q →
    ∃ a p' q', m p = (.ok a, p', []) ∧ n q = (.ok a, q', []) ∧ p'.Matches q') : Alike l m n := by
  intro p q same
  obtain ⟨a, p', q', left, right, same'⟩ := h p q same
  rw [left, right]
  exact ⟨.ok a, same', l.nil⟩

theorem pure (a : α) : Alike l (Pure.pure a : Activity σ α) (Pure.pure a) :=
  of_quiet fun p q same => ⟨a, p, q, rfl, rfl, same⟩

theorem fail {f g : Failure} (like : l.failures f g) :
    Alike l (Activity.fail f : Activity σ α) (.fail g) :=
  fun _ _ same => ⟨.error like, same, l.nil⟩

theorem record {o o' : Occurrence} (like : l.transcripts [o] [o']) :
    Alike l (Activity.record o : Activity σ Unit) (.record o') :=
  fun _ _ same => ⟨.ok (), same, like⟩

theorem setSession (session : Session) :
    Alike l (Activity.setSession session : Activity σ Unit) (.setSession session) :=
  of_quiet fun _ _ same => ⟨(), _, _, rfl, rfl, ⟨same.state, rfl⟩⟩

theorem bind (first : Alike l m n) (last : ∀ a, Alike l (f a) (g a)) :
    Alike l (m >>= f) (n >>= g) := by
  intro p q same
  obtain ⟨results, same', transcripts⟩ := first p q same
  match left : m p, right : n q with
  | (r, p', t), (r', q', u) =>
    rw [left, right] at results same' transcripts
    cases results with
    | error like =>
      rw [bind_of_error left, bind_of_error right]
      exact ⟨.error like, same', transcripts⟩
    | ok a =>
      rw [bind_of_ok left, bind_of_ok right]
      obtain ⟨results', same'', transcripts'⟩ := last a p' q' same'
      exact ⟨results', same'', l.append transcripts transcripts'⟩

theorem progress {f g : Progress σ → Activity σ β}
    (h : ∀ p q : Progress σ, p.Matches q → Alike l (f p) (g q)) :
    Alike l (Activity.progress >>= f) (Activity.progress >>= g) :=
  fun p q same => h p q same p q same

end Alike

end Activity

namespace Supervisor

open Activity

variable {σ : Type} {l : Likeness} {s s' : Supervisor σ} {lines lines' : List (List UInt8)}
variable {line line' : List UInt8} {m m' : Message}

theorem feed_of_message (read : Lines.parse line = some (.ok m)) (p : Progress σ) :
    s.feed line p = s.handle m (p.counting line) := by
  rw [feed_eq, read]

theorem alike_feed_of_blank (blank : Lines.parse line = none) :
    Alike l (s.feed line) (pure ()) :=
  Alike.of_quiet fun _ q same =>
    ⟨(), _, q, feed_of_blank blank, rfl, ⟨same.state, same.session⟩⟩

theorem alike_blank_feed (blank : Lines.parse line = none) :
    Alike l (pure ()) (s.feed line) :=
  Alike.of_quiet fun p _ same =>
    ⟨(), p, _, rfl, feed_of_blank blank, ⟨same.state, same.session⟩⟩

theorem alike_feed (read : Lines.parse line = some (.ok m))
    (read' : Lines.parse line' = some (.ok m')) (h : Alike l (s.handle m) (s'.handle m')) :
    Alike l (s.feed line) (s'.feed line') := by
  intro p q same
  rw [feed_of_message read, feed_of_message read']
  exact h _ _ ⟨same.state, same.session⟩

inductive Paired (l : Likeness) (s s' : Supervisor σ) :
    List (List UInt8) → List (List UInt8) → Prop where
  | nil : Paired l s s' [] []
  | left {line : List UInt8} {lines lines' : List (List UInt8)} :
    Alike l (s.feed line) (pure ()) → Paired l s s' lines lines' →
      Paired l s s' (line :: lines) lines'
  | right {line : List UInt8} {lines lines' : List (List UInt8)} :
    Alike l (pure ()) (s'.feed line) → Paired l s s' lines lines' →
      Paired l s s' lines (line :: lines')
  | both {line line' : List UInt8} {lines lines' : List (List UInt8)} :
    Alike l (s.feed line) (s'.feed line') → Paired l s s' lines lines' →
      Paired l s s' (line :: lines) (line' :: lines')

theorem Paired.alike_feedAll (h : Paired l s s' lines lines') :
    Alike l (s.feedAll lines) (s'.feedAll lines') := by
  induction h with
  | nil => exact Alike.pure ()
  | left idle _ ih => exact idle.bind (g := fun _ => s'.feedAll _) fun _ => ih
  | right idle _ ih => exact idle.bind (f := fun _ => s.feedAll _) fun _ => ih
  | both alike _ ih => exact alike.bind fun _ => ih

theorem run_of_alike {input input' : List UInt8} (protocol : s.protocol = s'.protocol)
    (start : Alike l s.start s'.start) (close : Alike l s.close s'.close)
    (paired : Paired l s s' (Lines.cut input) (Lines.cut input')) (state : σ) :
    l.Results (s.run state input).1 (s'.run state input').1 ∧
      (s.run state input).2.1 = (s'.run state input').2.1 ∧
      l.transcripts (s.run state input).2.2 (s'.run state input').2.2 := by
  have session :
      Alike l (s.session (Lines.cut input) none) (s'.session (Lines.cut input') none) := by
    unfold Supervisor.session
    exact start.bind fun _ => paired.alike_feedAll.bind fun _ => close
  have initial : (s.initial state).Matches (s'.initial state) := by
    unfold Supervisor.initial
    rw [protocol]
    exact ⟨rfl, rfl⟩
  obtain ⟨results, same, transcripts⟩ := session _ _ initial
  exact ⟨results, same.state, transcripts⟩

end Supervisor

end Interaction
