import Interaction.Supervisor.Basic

/-!
This module contains runs step by step: what comes of a request to write, of a line of the stream,
and of some lines before others.
-/

namespace Interaction

namespace Context

variable {ctx : Context} {channel : String} {data : Json} {session : Session} {fault : Fault}
variable {type : PayloadType}

theorem write_of_unknown (unknown : ctx.protocol.resolve (.output channel) = .error fault) :
    ctx.write channel data session = (.error fault, session, [.refused channel fault]) := by
  unfold write
  rw [unknown]

theorem write_of_illegal (known : ctx.protocol.resolve (.output channel) = .ok type)
    (illegal : (session.push (.output channel)).verdict = .unexpected) :
    ctx.write channel data session =
      (.error (.violation (.output channel) session.expected), session.push (.output channel),
        [.refused channel (.violation (.output channel) session.expected)]) := by
  unfold write
  rw [known]
  simp only [illegal, if_true]

theorem write_of_legal (known : ctx.protocol.resolve (.output channel) = .ok type)
    (legal : (session.push (.output channel)).verdict ≠ .unexpected) :
    ctx.write channel data session =
      (.ok (), session.push (.output channel),
        [.sent channel (.new (ctx.names.topic channel) data)]) := by
  unfold write
  rw [known]
  simp only [legal, if_false]

theorem perform_write {α : Type} {next : Except Fault Unit → Effect α} {answer : Except Fault Unit}
    {session' session'' : Session} {a : α} {now later : Transcript}
    (answered : ctx.write channel data session = (answer, session', now))
    (goesOn : ctx.perform (next answer) session' = (a, session'', later)) :
    ctx.perform (.write channel data next) session = (a, session'', now ++ later) := by
  unfold perform
  simp only [answered, goesOn]

end Context

namespace Activity

variable {σ α β γ : Type} {m : Activity σ α} {f : α → Activity σ β} {p p' : Progress σ}
variable {t : Transcript} {a : α} {failure : Failure}

theorem bind_of_ok (h : m p = (.ok a, p', t)) :
    (m >>= f) p = ((f a p').1, (f a p').2.1, t ++ (f a p').2.2) := by
  simp only [Bind.bind, h]

theorem bind_of_error (h : m p = (.error failure, p', t)) :
    (m >>= f) p = (.error failure, p', t) := by
  simp only [Bind.bind, h]

protected theorem pure_bind (a : α) (f : α → Activity σ β) (p : Progress σ) :
    (pure a >>= f) p = f a p :=
  rfl

theorem progress_bind (f : Progress σ → Activity σ β) (p : Progress σ) :
    (.progress >>= f) p = f p p :=
  rfl

theorem setSession_bind (session : Session) (f : Unit → Activity σ β) (p : Progress σ) :
    (.setSession session >>= f) p = f () { p with session } :=
  rfl

theorem bind_assoc (m : Activity σ α) (f : α → Activity σ β) (g : β → Activity σ γ) :
    m >>= f >>= g = m >>= fun a => f a >>= g := by
  funext p
  match eq : m p with
  | (.error failure, p', t) => rw [bind_of_error (bind_of_error eq), bind_of_error eq]
  | (.ok a, p', t) =>
    rw [bind_of_ok eq]
    match eq' : f a p' with
    | (.error failure, p'', t') =>
      have first : (m >>= f) p = (.error failure, p'', t ++ t') := by rw [bind_of_ok eq, eq']
      rw [bind_of_error first, bind_of_error eq']
    | (.ok b, p'', t') =>
      have first : (m >>= f) p = (.ok b, p'', t ++ t') := by rw [bind_of_ok eq, eq']
      rw [bind_of_ok first, bind_of_ok eq', List.append_assoc]

theorem call_of_perform {ctx : Context} {callback : Callback σ Unit} {result : Except Failure Unit}
    {state : σ} {session : Session} (c : Call)
    (performed : ctx.perform (callback.run.run p.state) p.session = ((result, state), session, t)) :
    call ctx c callback p = (.ok result, { p with state, session }, .called c :: t) := by
  unfold call
  rw [performed]

end Activity

namespace Lines

def channelMessage? (line : List UInt8) : Option Message :=
  match parse line with
  | some (.ok m) =>
    match Incoming.classify m with
    | .ok (.channel m) => some m
    | _ => none
  | _ => none

def channelMessages (bytes : List UInt8) : List Message := (cut bytes).filterMap channelMessage?

end Lines

def Progress.counting {σ : Type} (p : Progress σ) (line : List UInt8) : Progress σ :=
  { p with line := Lines.numberAfter p.line line }

namespace Supervisor

variable {σ : Type} {s : Supervisor σ} {p : Progress σ} {line : List UInt8} {m : Message}
variable {type : PayloadType}

theorem feedAll_append (s : Supervisor σ) (lines rest : List (List UInt8)) :
    s.feedAll (lines ++ rest) = (do s.feedAll lines; s.feedAll rest) := by
  induction lines with
  | nil => rfl
  | cons line lines ih =>
    rw [List.cons_append, feedAll, ih, feedAll, Activity.bind_assoc]

theorem feed_eq (s : Supervisor σ) (line : List UInt8) (p : Progress σ) :
    s.feed line p =
      (match Lines.parse line with
        | none => pure ()
        | some (.ok m) => s.handle m
        | some (.error fault) => s.stopReading fault : Activity σ Unit) (p.counting line) :=
  rfl

theorem feed_of_blank (blank : Lines.parse line = none) :
    s.feed line p = (.ok (), p.counting line, []) := by
  rw [feed_eq, blank]
  rfl

theorem stopReading_eq {α : Type} (s : Supervisor σ) (fault : Fault) (p : Progress σ) :
    ∃ entry, (s.stopReading fault : Activity σ α) p =
      (.error ((Failure.ofFault fault).within ("while reading line " ++ toString p.line)), p,
        [.logged entry]) :=
  ⟨_, rfl⟩

theorem feed_of_channelMessage (found : Lines.channelMessage? line = some m) :
    s.feed line p = s.deliver m (p.counting line) := by
  unfold Lines.channelMessage? at found
  rw [feed_eq]
  split at found
  . next m' parsed =>
    rw [parsed]
    simp only
    unfold handle
    split at found
    . next classified =>
      cases found
      rw [classified]
    . cases found
  . cases found

section Calls

variable {callback : Callback σ Unit} {state : σ} {session : Session} {t : Transcript}

theorem call_of_perform (c : Call)
    (performed : s.context.perform (callback.run.run p.state) p.session =
      ((.ok (), state), session, t)) :
    s.call c callback p = (.ok (), { p with state, session }, .called c :: t) := by
  unfold Supervisor.call
  rw [Activity.bind_of_ok (Activity.call_of_perform c performed)]
  simp [Activity.ofExcept, Pure.pure]

theorem start_of_perform
    (performed : s.context.perform (s.node.init.run.run p.state) p.session =
      ((.ok (), state), session, t)) :
    ∃ entry, s.start p =
      (.ok (), { p with state, session }, .called .init :: t ++ [.logged entry]) := by
  unfold start
  rw [Activity.bind_of_ok (call_of_perform .init performed)]
  exact ⟨_, rfl⟩

theorem log_bind {α : Type} (level : LogLevel) (text : String) (f : Unit → Activity σ α) :
    (s.log level text >>= f) p =
      ((f () p).1, (f () p).2.1,
        .logged ⟨level, .supervisor, s.node.name ++ ": " ++ text⟩ :: (f () p).2.2) :=
  rfl

theorem close_of_perform
    (performed : s.context.perform (s.node.finish.run.run p.state) p.session =
      ((.ok (), state), session, t)) :
    ∃ entries : List LogEntry, s.close p =
      (.ok p.session.verdict, { p with state, session },
        entries.map .logged ++ .called .finish :: t) := by
  have ended : (do s.call .finish s.node.finish; pure p.session.verdict : Activity σ Verdict) p =
      (.ok p.session.verdict, { p with state, session }, .called .finish :: t) := by
    rw [Activity.bind_of_ok (call_of_perform .finish performed)]
    simp [Pure.pure]
  unfold close
  rw [log_bind, Activity.progress_bind]
  match verdict : p.session.verdict with
  | .unexpected =>
    simp only [verdict] at ended
    simp only [log_bind, ended]
    exact ⟨[_, _], rfl⟩
  | .needMore =>
    simp only [verdict] at ended
    simp only [log_bind, ended]
    exact ⟨[_, _], rfl⟩
  | .enough =>
    simp only [verdict] at ended
    simp only [ended]
    exact ⟨[_], rfl⟩

end Calls

def eventOf (s : Supervisor σ) (m : Message) : Event := .input (s.names.localName m.topic)

def stopEntry (s : Supervisor σ) (fault : Fault) : LogEntry :=
  ⟨.error, .supervisor, s.node.name ++ ": " ++ fault.message⟩

theorem deliver_of_illegal (known : s.protocol.resolve (s.eventOf m) = .ok type)
    (illegal : (p.session.push (s.eventOf m)).verdict = .unexpected) :
    s.deliver m p =
      (.error (.ofFault (.violation (s.eventOf m) p.session.expected)),
        { p with session := p.session.push (s.eventOf m) },
        [.logged (s.stopEntry (.violation (s.eventOf m) p.session.expected))]) := by
  unfold eventOf at *
  unfold deliver
  simp only [known]
  rw [Activity.progress_bind, Activity.setSession_bind, if_pos illegal]
  rfl

theorem deliver_of_perform {state : σ} {session : Session} {t : Transcript}
    (known : s.protocol.resolve (s.eventOf m) = .ok type)
    (legal : (p.session.push (s.eventOf m)).verdict ≠ .unexpected)
    (performed : s.context.perform
      ((s.node.receive (s.names.localName m.topic) m.data).run.run p.state)
        (p.session.push (s.eventOf m)) = ((.ok (), state), session, t)) :
    ∃ entry, s.deliver m p =
      (.ok (), { p with state, session },
        .logged entry :: .called (.receive (s.names.localName m.topic) m.data) :: t) := by
  unfold eventOf at *
  unfold deliver
  simp only [known]
  rw [Activity.progress_bind, Activity.setSession_bind, if_neg legal, log_bind,
    Activity.bind_of_ok (Activity.call_of_perform _ performed)]
  simp only [Pure.pure, List.append_nil]
  exact ⟨_, rfl⟩

end Supervisor

end Interaction
