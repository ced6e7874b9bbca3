import Interaction.Proofs.Message.Incoming
import Interaction.Proofs.Supervisor.Refusal

/-!
This module contains which line a run names when it cannot read on. The lines before it hold
messages or nothing, so that they are all counted; a line that is no text is not counted itself.
-/

namespace Interaction

namespace Lines

inductive Sound (line : List UInt8) : Prop where
  | blank (text : String) (decoded : Text.decode? line = some text)
    (white : ∀ c ∈ text.toList, Text.isBlank c = true)
  | message (text : String) (m : Message) (decoded : Text.decode? line = some text)
    (read : Message.parse (Text.trim text.toList) = .ok m)

theorem sound_iff {line : List UInt8} :
    Sound line ↔ ∀ fault, parse line ≠ some (.error fault) := by
  unfold parse
  constructor
  . rintro (⟨text, decoded, white⟩ | ⟨text, m, decoded, read⟩) fault
    . simp [decoded, Text.trim_eq_nil_iff.2 white]
    . simp only [decoded, read]
      split <;> simp [Except.mapError]
  . intro noFault
    match decoded : Text.decode? line with
    | none => simp [decoded] at noFault
    | some text =>
      rw [decoded] at noFault
      by_cases white : Text.trim text.toList = []
      . exact .blank text decoded (Text.trim_eq_nil_iff.1 white)
      . match read : Message.parse (Text.trim text.toList) with
        | .ok m => exact .message text m decoded read
        | .error error => simp [white, read, Except.mapError] at noFault

theorem Sound.isSome_decode {line : List UInt8} (h : Sound line) :
    (Text.decode? line).isSome = true := by
  rcases h with ⟨text, decoded, _⟩ | ⟨text, m, decoded, _⟩
  . rw [decoded]
    rfl
  . rw [decoded]
    rfl

end Lines

namespace Failure

def readingText (number : Nat) : String := "while reading line " ++ toString number

theorem readingText_inj {m n : Nat} (h : readingText m = readingText n) : m = n := by
  unfold readingText at h
  have texts := congrArg String.toList h
  rw [String.toList_append, String.toList_append, List.append_cancel_left_eq] at texts
  have digits : Nat.toDigits 10 m = Nat.toDigits 10 n := by simpa [toString] using texts
  have values := congrArg (Nat.ofDigitChars 10 · 0) digits
  simpa only [Nat.ofDigitChars_ten_toDigits] using values

theorem head?_append {c : Char} {a : String} (h : a.toList.head? = some c) (b : String) :
    (a ++ b).toList.head? = some c := by
  rw [String.toList_append, List.head?_append, h]
  rfl

/-- Whether a failure does not claim to come from the reading of a line. -/
def NamesNoLine (f : Failure) : Prop := ∀ n, f.message ≠ readingText n

theorem namesNoLine_of_head {f : Failure} {c : Char} (h : f.message.toList.head? = some c)
    (other : c ≠ 'w') : f.NamesNoLine := by
  intro n eq
  have head : (readingText n).toList.head? = some 'w' := head?_append rfl _
  rw [eq, head, Option.some.injEq] at h
  exact other h.symm

theorem namesNoLine_unknownChannel (e : Event) (known : List String) :
    (ofFault (.unknownChannel e known)).NamesNoLine := by
  obtain ⟨c, word, other⟩ : ∃ c, e.direction.word.toList.head? = some c ∧ c ≠ 'w' := by
    cases e.direction
    . exact ⟨'i', rfl, by decide⟩
    . exact ⟨'o', rfl, by decide⟩
  have channel : e.channelText.toList.head? = some c :=
    head?_append (head?_append (head?_append word _) _) _
  exact namesNoLine_of_head (head?_append (head?_append channel _) _) other

theorem namesNoLine_violation (e : Event) (expected : List Event) :
    (ofFault (.violation e expected)).NamesNoLine :=
  namesNoLine_of_head (c := 'u') (head?_append (head?_append (head?_append rfl _) _) _) (by decide)

theorem namesNoLine_malformedMessage (error : Json.Error) :
    (ofFault (.malformedMessage error)).NamesNoLine :=
  namesNoLine_of_head (c := 'm') (head?_append rfl _) (by decide)

end Failure

def Callback.NamesNoLine {σ : Type} (callback : Callback σ Unit) : Prop :=
  ∀ (ctx : Context) state session f,
    (ctx.perform (callback.run.run state) session).1.1 = .error f → f.NamesNoLine

namespace Callback

variable {σ : Type}

theorem namesNoLine_pure : (pure () : Callback σ Unit).NamesNoLine := by
  rintro ctx state session f ⟨⟩

theorem namesNoLine_log (text : String) : (log text : Callback σ Unit).NamesNoLine := by
  rintro ctx state session f ⟨⟩

theorem namesNoLine_write (channel : String) (data : Json) :
    (write channel data : Callback σ Unit).NamesNoLine := by
  intro ctx state session f failed
  match written : ctx.write channel data session with
  | (.ok (), session', now) =>
    have performed : ctx.perform ((write channel data).run.run state) session =
      ((.ok (), state), session', now ++ []) := Context.perform_write written rfl
    rw [performed] at failed
    cases failed
  | (.error fault, session', now) =>
    have performed : ctx.perform ((write channel data).run.run state) session =
      ((.error (.ofFault fault), state), session', now ++ []) := Context.perform_write written rfl
    rw [performed] at failed
    cases failed
    rcases ctx.write_cases channel data session with ⟨message, eq⟩ | ⟨known, eq⟩ | eq
    . cases written.symm.trans eq
    . cases written.symm.trans eq
      exact Failure.namesNoLine_unknownChannel _ _
    . cases written.symm.trans eq
      exact Failure.namesNoLine_violation _ _

end Callback

namespace Node

def callback {σ : Type} (node : Node σ) : Call → Callback σ Unit
  | .init => node.init
  | .receive channel data => node.receive channel data
  | .setConfig _ _ => pure ()
  | .configured key value => node.configured key value
  | .finish => node.finish

def FailsWith {σ : Type} (node : Node σ) (P : Failure → Prop) : Prop :=
  ∀ call (ctx : Context) state session f,
    (ctx.perform ((node.callback call).run.run state) session).1.1 = .error f → P f

def NamesNoLine {σ : Type} (node : Node σ) : Prop :=
  ∀ call, (node.callback call).NamesNoLine

theorem namesNoLine_imageFilter : imageFilter.NamesNoLine := by
  intro call
  cases call with
  | init => exact Callback.namesNoLine_log _
  | receive channel data => exact Callback.namesNoLine_write channel data
  | setConfig key value => exact Callback.namesNoLine_pure
  | configured key value => exact Callback.namesNoLine_pure
  | finish => exact Callback.namesNoLine_log _

end Node

namespace Activity

variable {σ α β : Type}

/-- Whether a part of a run counts no line, and whether all failures it may end with are `P`. -/
def ReadsNothing (m : Activity σ α) (P : Failure → Prop) : Prop :=
  ∀ p, (m p).2.1.line = p.line ∧ ∀ f, (m p).1 = .error f → P f

namespace ReadsNothing

variable {m : Activity σ α} {f : α → Activity σ β} {P : Failure → Prop}

theorem of_ok (h : ∀ p, ∃ a p' t, m p = (.ok a, p', t) ∧ p'.line = p.line) : m.ReadsNothing P := by
  intro p
  obtain ⟨a, p', t, eq, same⟩ := h p
  rw [eq]
  refine ⟨same, ?_⟩
  intro f failed
  cases failed

theorem pure (a : α) : (Pure.pure a : Activity σ α).ReadsNothing P :=
  of_ok fun p => ⟨a, p, [], rfl, rfl⟩

theorem fail {failure : Failure} (h : P failure) :
    (Activity.fail failure : Activity σ α).ReadsNothing P := by
  intro p
  refine ⟨rfl, ?_⟩
  rintro _ ⟨⟩
  exact h

theorem bind (first : m.ReadsNothing P) (last : ∀ a, (f a).ReadsNothing P) :
    (m >>= f).ReadsNothing P := by
  intro p
  have here := first p
  match eq : m p with
  | (.error failure, p', t) =>
    rw [eq] at here
    rw [bind_of_error eq]
    refine ⟨here.1, ?_⟩
    rintro _ ⟨⟩
    exact here.2 failure rfl
  | (.ok a, p', t) =>
    rw [eq] at here
    rw [bind_of_ok eq]
    exact ⟨(last a p').1.trans here.1, (last a p').2⟩

theorem progress : (Activity.progress : Activity σ (Progress σ)).ReadsNothing P :=
  of_ok fun p => ⟨p, p, [], rfl, rfl⟩

theorem bind_call {ctx : Context} {node : Node σ} {g : Except Failure Unit → Activity σ β}
    (own : node.FailsWith P) (c : Call) (done : (g (.ok ())).ReadsNothing P)
    (failed : ∀ f, P f → (g (.error f)).ReadsNothing P) :
    (Activity.call ctx c (node.callback c) >>= g).ReadsNothing P := by
  intro p
  have named := own c ctx p.state p.session
  match eq : ctx.perform ((node.callback c).run.run p.state) p.session with
  | ((result, state), session, t) =>
    rw [eq] at named
    have rest : (g result).ReadsNothing P := by
      match result with
      | .ok () => exact done
      | .error f => exact failed f (named f rfl)
    rw [bind_of_ok (call_of_perform c eq)]
    exact rest { p with state, session }

end ReadsNothing

end Activity

namespace Supervisor

open Activity

variable {σ α : Type} {s : Supervisor σ} {P : Failure → Prop}

structure FailsWith (s : Supervisor σ) (P : Failure → Prop) : Prop where
  node : s.node.FailsWith P
  unknownChannel : ∀ e known, P (.ofFault (.unknownChannel e known))
  violation : ∀ e expected, P (.ofFault (.violation e expected))
  malformedMessage : ∀ error, P (.ofFault (.malformedMessage error))

theorem FailsWith.any (s : Supervisor σ) : s.FailsWith fun _ => True where
  node := fun _ _ _ _ _ _ => True.intro
  unknownChannel _ _ := True.intro
  violation _ _ := True.intro
  malformedMessage _ := True.intro

theorem FailsWith.namesNoLine (own : s.node.NamesNoLine) : s.FailsWith Failure.NamesNoLine where
  node := own
  unknownChannel := Failure.namesNoLine_unknownChannel
  violation := Failure.namesNoLine_violation
  malformedMessage := Failure.namesNoLine_malformedMessage

theorem readsNothing_log (level : LogLevel) (text : String) : (s.log level text).ReadsNothing P :=
  ReadsNothing.of_ok fun p => ⟨(), p, _, rfl, rfl⟩

theorem readsNothing_stop {fault : Fault} (h : P (.ofFault fault)) :
    (s.stop fault : Activity σ α).ReadsNothing P := by
  unfold stop
  exact (readsNothing_log _ _).bind fun _ => .fail h

section Parts

variable (fails : s.FailsWith P)
include fails

theorem readsNothing_call (c : Call) : (s.call c (s.node.callback c)).ReadsNothing P := by
  unfold Supervisor.call
  exact ReadsNothing.bind_call fails.node c (.pure ()) fun _ h => .fail h

theorem readsNothing_setConfig (key : String) (value : Json) :
    (s.setConfig key value).ReadsNothing P := by
  unfold setConfig
  apply ReadsNothing.progress.bind
  intro p
  have configured := readsNothing_call fails (.configured key value)
  match s.node.setConfig key value p.state with
  | (result, state) =>
    refine ReadsNothing.bind (.of_ok fun p => ⟨(), p, _, rfl, rfl⟩) fun _ => ?_
    refine ReadsNothing.bind (.of_ok fun p => ⟨(), { p with state }, _, rfl, rfl⟩) fun _ => ?_
    match result with
    | .ok () => exact configured
    | .error fault => exact (readsNothing_log _ _).bind fun _ => configured

theorem readsNothing_deliver (m : Message) : (s.deliver m).ReadsNothing P := by
  unfold deliver
  simp only
  split
  . next fault unknown =>
    cases Protocol.resolve_eq_error unknown
    exact readsNothing_stop (fails.unknownChannel _ _)
  . apply ReadsNothing.progress.bind
    intro p
    refine .bind (.of_ok fun q => ⟨(), { q with session := _ }, _, rfl, rfl⟩) fun _ => ?_
    split
    . exact readsNothing_stop (fails.violation _ _)
    . apply (readsNothing_log _ _).bind
      intro _
      refine ReadsNothing.bind_call fails.node (.receive _ m.data) (.pure ()) ?_
      intro f h
      exact (readsNothing_log _ _).bind fun _ => .fail h

theorem readsNothing_handle (m : Message) : (s.handle m).ReadsNothing P := by
  unfold handle
  split
  . next fault malformed =>
    obtain ⟨cause, rfl, _⟩ := Incoming.eq_malformedMessage_of_classify malformed
    exact .fail (fails.malformedMessage _)
  . exact readsNothing_setConfig fails _ _
  . exact readsNothing_log _ _
  . exact readsNothing_deliver fails _

theorem readsNothing_start : s.start.ReadsNothing P := by
  unfold start
  exact (readsNothing_call fails .init).bind fun _ => readsNothing_log _ _

theorem readsNothing_close : s.close.ReadsNothing P := by
  unfold close
  apply (readsNothing_log _ _).bind
  intro _
  apply ReadsNothing.progress.bind
  intro p
  have ended : (do s.call .finish s.node.finish; pure p.session.verdict :
      Activity σ Verdict).ReadsNothing P :=
    (readsNothing_call fails .finish).bind fun _ => .pure _
  simp only
  split
  . exact (readsNothing_log _ _).bind fun _ => ended
  . exact (readsNothing_log _ _).bind fun _ => ended
  . exact ended

end Parts

theorem sound_of_feed {line : List UInt8} {p p' : Progress σ} {t : Transcript}
    (fed : s.feed line p = (.ok (), p', t)) : Lines.Sound line ∧ p'.line = p.line + 1 := by
  rw [feed_eq] at fed
  match parsed : Lines.parse line with
  | none =>
    have sound : Lines.Sound line := Lines.sound_iff.2 (by simp [parsed])
    rw [parsed] at fed
    cases fed
    exact ⟨sound, if_pos sound.isSome_decode⟩
  | some (.ok m) =>
    have sound : Lines.Sound line := Lines.sound_iff.2 (by simp [parsed])
    have same := (readsNothing_handle (.any s) m (p.counting line)).1
    rw [parsed] at fed
    simp only at fed
    rw [fed] at same
    exact ⟨sound, same.trans (if_pos sound.isSome_decode)⟩
  | some (.error fault) =>
    obtain ⟨entry, stopped⟩ := s.stopReading_eq (α := Unit) fault (p.counting line)
    rw [parsed] at fed
    simp only [stopped] at fed
    cases fed

theorem unsound_of_feed (own : s.node.NamesNoLine) {line : List UInt8} {p p' : Progress σ}
    {t : Transcript} {f : Failure} {n : Nat} (fed : s.feed line p = (.error f, p', t))
    (words : f.message = Failure.readingText n) :
    ¬Lines.Sound line ∧ n = Lines.numberAfter p.line line := by
  rw [feed_eq] at fed
  match parsed : Lines.parse line with
  | none =>
    rw [parsed] at fed
    cases fed
  | some (.ok m) =>
    have named := (readsNothing_handle (.namesNoLine own) m (p.counting line)).2
    rw [parsed] at fed
    simp only at fed
    rw [fed] at named
    exact absurd words (named f rfl n)
  | some (.error fault) =>
    obtain ⟨entry, stopped⟩ := s.stopReading_eq (α := Unit) fault (p.counting line)
    rw [parsed] at fed
    simp only [stopped] at fed
    cases fed
    refine ⟨?_, (Failure.readingText_inj words).symm⟩
    rw [Lines.sound_iff]
    intro noFault
    exact noFault fault parsed

theorem sound_of_feedAll {lines : List (List UInt8)} {p p' : Progress σ} {t : Transcript}
    (fed : s.feedAll lines p = (.ok (), p', t)) :
    (∀ line ∈ lines, Lines.Sound line) ∧ p'.line = p.line + lines.length := by
  induction lines generalizing p t with
  | nil =>
    cases fed
    exact ⟨by simp, rfl⟩
  | cons line rest ih =>
    match first : s.feed line p with
    | (.error failure, q, u) =>
      rw [feedAll, bind_of_error first] at fed
      cases fed
    | (.ok (), q, u) =>
      obtain ⟨sound, next⟩ := sound_of_feed first
      rw [feedAll, bind_of_ok first] at fed
      obtain ⟨⟨result, q', u'⟩, others⟩ : ∃ r, s.feedAll rest q = r := ⟨_, rfl⟩
      rw [others] at fed
      cases fed
      obtain ⟨sounds, last⟩ := ih others
      refine ⟨List.forall_mem_cons.2 ⟨sound, sounds⟩, ?_⟩
      rw [last, next, List.length_cons]
      omega

theorem first_unsound_of_feedAll (own : s.node.NamesNoLine) {lines : List (List UInt8)}
    {p p' : Progress σ} {t : Transcript} {f : Failure} {n : Nat}
    (fed : s.feedAll lines p = (.error f, p', t)) (words : f.message = Failure.readingText n) :
    ∃ before line after, lines = before ++ line :: after ∧
      (∀ line ∈ before, Lines.Sound line) ∧ ¬Lines.Sound line ∧
      n = Lines.numberAfter (p.line + before.length) line := by
  induction lines generalizing p t with
  | nil => cases fed
  | cons line rest ih =>
    match first : s.feed line p with
    | (.error failure, q, u) =>
      rw [feedAll, bind_of_error first] at fed
      cases fed
      obtain ⟨unsound, number⟩ := unsound_of_feed own first words
      exact ⟨[], line, rest, rfl, by simp, unsound, number⟩
    | (.ok (), q, u) =>
      obtain ⟨sound, next⟩ := sound_of_feed first
      rw [feedAll, bind_of_ok first] at fed
      obtain ⟨⟨result, q', u'⟩, others⟩ : ∃ r, s.feedAll rest q = r := ⟨_, rfl⟩
      rw [others] at fed
      cases fed
      obtain ⟨before, other, after, eq, sounds, unsound, number⟩ := ih others
      refine ⟨line :: before, other, after, by rw [eq]; rfl,
        List.forall_mem_cons.2 ⟨sound, sounds⟩, unsound, ?_⟩
      rw [number, next, List.length_cons]
      congr 1
      omega

section Run

variable {state : σ} {input line : List UInt8} {lines rest : List (List UInt8)}
variable {p : Progress σ} {t : Transcript}

theorem Reaches.sound (reaches : s.Reaches state lines p t) :
    (∀ line ∈ lines, Lines.Sound line) ∧ p.line = lines.length := by
  unfold Reaches at reaches
  have unread := (readsNothing_start (.any s) (s.initial state)).1
  match started : s.start (s.initial state) with
  | (.error failure, p', t') =>
    rw [bind_of_error started] at reaches
    cases reaches
  | (.ok (), p', t') =>
    rw [started] at unread
    have begun : p'.line = 0 := unread
    rw [bind_of_ok started] at reaches
    match fed : s.feedAll lines p' with
    | (result, p'', t'') =>
      rw [fed] at reaches
      cases reaches
      obtain ⟨sounds, last⟩ := sound_of_feedAll fed
      exact ⟨sounds, last.trans (by omega)⟩

theorem run_of_unsound (cut : Lines.cut input = lines ++ line :: rest)
    (reaches : s.Reaches state lines p t) (unsound : ¬Lines.Sound line) :
    ∃ fault entry, s.run state input =
      (.error ((Failure.ofFault fault).within
        (Failure.readingText (Lines.numberAfter lines.length line))), p.state,
        t ++ [.logged entry]) := by
  rw [Lines.sound_iff] at unsound
  push Not at unsound
  obtain ⟨fault, parsed⟩ := unsound
  obtain ⟨entry, stopped⟩ := s.stopReading_eq (α := Unit) fault (p.counting line)
  have number : (p.counting line).line = Lines.numberAfter lines.length line := by
    rw [← reaches.sound.2]
    rfl
  have fed := s.feed_eq line p
  rw [parsed] at fed
  simp only [stopped, number] at fed
  refine ⟨fault, entry, ?_⟩
  unfold run runOn
  rw [cut, session_append, bind_of_ok reaches, feedAll, bind_assoc, bind_of_error fed]
  rfl

theorem first_unsound_of_failure (own : s.node.NamesNoLine) {f : Failure} {n : Nat}
    (failed : (s.run state input).1 = .error f) (words : f.message = Failure.readingText n) :
    ∃ lines line rest, Lines.cut input = lines ++ line :: rest ∧
      (∀ line ∈ lines, Lines.Sound line) ∧ ¬Lines.Sound line ∧
      n = Lines.numberAfter lines.length line := by
  have result : (s.session (Lines.cut input) none (s.initial state)).1 = .error f := failed
  unfold session at result
  have begun := readsNothing_start (.namesNoLine own) (s.initial state)
  match started : s.start (s.initial state) with
  | (.error failure, p, t) =>
    rw [started] at begun
    rw [bind_of_error started] at result
    cases result
    exact absurd words (begun.2 f rfl n)
  | (.ok (), p, t) =>
    rw [started] at begun
    have unread : p.line = 0 := begun.1
    rw [bind_of_ok started] at result
    match fed : s.feedAll (Lines.cut input) p with
    | (.error failure, p', t') =>
      rw [bind_of_error fed] at result
      cases result
      obtain ⟨lines, line, rest, cut, sounds, unsound, number⟩ :=
        first_unsound_of_feedAll own fed words
      rw [unread, Nat.zero_add] at number
      exact ⟨lines, line, rest, cut, sounds, unsound, number⟩
    | (.ok (), p', t') =>
      rw [bind_of_ok fed] at result
      exact absurd words ((readsNothing_close (.namesNoLine own) p').2 f result n)

end Run

/--
A run that fails because it cannot read a line has come to the first line that is neither blank nor
a message. The number that it gives is that of the line, with all lines counted from one, if the
line is a text; otherwise it is that of the line before. A run that comes to such a line fails with
that number.
-/
theorem reading_failure_line (s : Supervisor σ) (state : σ) (input : List UInt8) :
    (s.node.NamesNoLine → ∀ f n, (s.run state input).1 = .error f →
      f.message = Failure.readingText n → ∃ lines line rest,
        Lines.cut input = lines ++ line :: rest ∧
        (∀ line ∈ lines, Lines.Sound line) ∧ ¬Lines.Sound line ∧
        n = if (Text.decode? line).isSome then lines.length + 1 else lines.length) ∧
    ∀ lines line rest p t, Lines.cut input = lines ++ line :: rest →
      s.Reaches state lines p t → ¬Lines.Sound line →
        ∃ fault entry, s.run state input =
          (.error ((Failure.ofFault fault).within (Failure.readingText
            (if (Text.decode? line).isSome then lines.length + 1 else lines.length))), p.state,
            t ++ [.logged entry]) := by
  refine ⟨?_, ?_⟩
  . intro own f n failed words
    exact first_unsound_of_failure own failed words
  . intro lines line rest p t cut reaches unsound
    exact run_of_unsound cut reaches unsound

theorem reading_failure_line_brace :
    ∃ f final t, imageEcho.run () [10, 123] = (.error f, final, t) ∧
      f.message = Failure.readingText 2 ∧
      ∃ lines line rest, Lines.cut [10, 123] = lines ++ line :: rest ∧
        (∀ line ∈ lines, Lines.Sound line) ∧ ¬Lines.Sound line ∧
        2 = if (Text.decode? line).isSome then lines.length + 1 else lines.length := by
  obtain ⟨named, stops⟩ := reading_failure_line imageEcho () [10, 123]
  have cut : Lines.cut [10, 123] = [[10]] ++ [123] :: [] := by decide +kernel
  have blank : imageEcho.feed [10] (imageEcho.initial ()) =
      (.ok (), (imageEcho.initial ()).counting [10], []) := feed_of_blank (by cbv)
  obtain ⟨t, reaches⟩ :
      ∃ t, imageEcho.Reaches () [[10]] ((imageEcho.initial ()).counting [10]) t := by
    obtain ⟨_, _, start⟩ := start_imageEcho
    unfold Reaches
    rw [bind_of_ok start, feedAll, bind_of_ok blank]
    exact ⟨_, rfl⟩
  have unsound : ¬Lines.Sound [123] := by
    have read : Lines.parse [123] = some (.error (.malformedMessage ⟨.endInObject, some 1⟩)) := by
      cbv
    rw [Lines.sound_iff]
    intro noFault
    exact noFault _ read
  have decoded : (Text.decode? [123]).isSome = true := by cbv
  obtain ⟨fault, entry, run⟩ := stops [[10]] [123] [] _ _ cut reaches unsound
  rw [if_pos decoded] at run
  refine ⟨_, _, _, run, rfl, ?_⟩
  exact named Node.namesNoLine_imageFilter _ 2 (congrArg Prod.fst run) rfl

/-- The first line of a stream is named as the line before it, because it is no text. -/
theorem reading_failure_line_zero :
    ¬∀ {σ : Type} (s : Supervisor σ) (state : σ) (input : List UInt8) f n,
      s.node.NamesNoLine → (s.run state input).1 = .error f → f.message = Failure.readingText n →
        ∃ lines line rest, Lines.cut input = lines ++ line :: rest ∧
          (∀ line ∈ lines, Lines.Sound line) ∧ ¬Lines.Sound line ∧ n = lines.length + 1 := by
  intro located
  have own := Node.namesNoLine_imageFilter
  have decoded : Text.decode? [255, 10] = none := by cbv
  have cut : Lines.cut [255, 10] = [] ++ [255, 10] :: [] := by decide +kernel
  have unsound : ¬Lines.Sound [255, 10] := by
    intro sound
    have text := sound.isSome_decode
    rw [decoded] at text
    cases text
  obtain ⟨t, reaches⟩ : ∃ t, imageEcho.Reaches () [] (imageEcho.initial ()) t := by
    obtain ⟨_, _, start⟩ := start_imageEcho
    unfold Reaches
    rw [bind_of_ok start]
    exact ⟨_, rfl⟩
  obtain ⟨fault, entry, run⟩ := run_of_unsound cut reaches unsound
  have number : Lines.numberAfter ([] : List (List UInt8)).length [255, 10] = 0 := by
    unfold Lines.numberAfter
    rw [decoded]
    rfl
  rw [number] at run
  obtain ⟨lines, line, rest, _, _, _, wrong⟩ :=
    located imageEcho () [255, 10] _ 0 own (congrArg Prod.fst run) rfl
  cases wrong

end Supervisor

end Interaction
