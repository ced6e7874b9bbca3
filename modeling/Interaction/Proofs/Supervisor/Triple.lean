import Interaction.Proofs.Channels
import Interaction.Proofs.Supervisor.Lawful

/-!
This module contains a logic for the parts of a run: what holds before a part and after it, of the
transcript so far and of the progress, while the transcript stays lawful.
-/

namespace Interaction

abbrev Assertion (σ : Type) : Type := Transcript → Progress σ → Prop

namespace Activity

variable {σ α β : Type} {ctx : Context}
variable {P P' : Assertion σ} {Q Q' : α → Assertion σ} {R : β → Assertion σ}

/--
Where `P` holds, an activity continues a lawful transcript lawfully, and `Q` holds if it succeeds.
-/
def Triple (ctx : Context) (P : Assertion σ) (m : Activity σ α) (Q : α → Assertion σ) : Prop :=
  ∀ t p, Lawful ctx.protocol ctx.names t → P t p →
    Lawful ctx.protocol ctx.names (t ++ (m p).2.2) ∧
      ∀ a, (m p).1 = .ok a → Q a (t ++ (m p).2.2) (m p).2.1

namespace Triple

theorem of_quiet {m : Activity σ α} (h : ∀ t p, P t p → ∃ a p', m p = (.ok a, p', []) ∧ Q a t p') :
    Triple ctx P m Q := by
  intro t p lawful holds
  obtain ⟨a, p', eq, post⟩ := h t p holds
  rw [eq, List.append_nil]
  refine ⟨lawful, ?_⟩
  intro b same
  cases same
  exact post

theorem pure {a : α} (h : ∀ t p, P t p → Q a t p) :
    Triple ctx P (Pure.pure a : Activity σ α) Q := by
  apply of_quiet
  intro t p holds
  exact ⟨a, p, rfl, h t p holds⟩

theorem progress : Triple ctx P Activity.progress (fun q t p => P t p ∧ q = p) := by
  apply of_quiet
  intro t p holds
  exact ⟨p, p, rfl, holds, rfl⟩

theorem fail {failure : Failure} : Triple ctx P (Activity.fail failure : Activity σ α) Q := by
  intro t p lawful _
  have unfolded : (Activity.fail failure : Activity σ α) p = (.error failure, p, []) := rfl
  rw [unfolded, List.append_nil]
  refine ⟨lawful, ?_⟩
  intro a eq
  cases eq

theorem ofExcept {result : Except Failure α} (h : ∀ a t p, P t p → Q a t p) :
    Triple ctx P (Activity.ofExcept result : Activity σ α) Q := by
  cases result with
  | ok a => exact pure (h a)
  | error failure => exact fail

theorem record {o : Occurrence} {P' : Assertion σ}
    (permits : ∀ t p, P t p → Permits ctx.protocol ctx.names t o)
    (after : ∀ t p, P t p → P' (t ++ [o]) p) :
    Triple ctx P (Activity.record o : Activity σ Unit) (fun _ => P') := by
  intro t p lawful holds
  refine ⟨lawful.snoc (permits t p holds), ?_⟩
  intro _ _
  exact after t p holds

theorem bind {m : Activity σ α} {f : α → Activity σ β} (first : Triple ctx P m Q)
    (last : ∀ a, Triple ctx (Q a) (f a) R) : Triple ctx P (m >>= f) R := by
  intro t p lawful holds
  obtain ⟨lawful', post⟩ := first t p lawful holds
  match eq : m p with
  | (.error e, p', t') =>
    have whole : (m >>= f) p = (.error e, p', t') := by simp only [Bind.bind, eq]
    rw [eq] at lawful'
    rw [whole]
    refine ⟨lawful', ?_⟩
    intro b same
    cases same
  | (.ok a, p', t') =>
    have whole : (m >>= f) p = ((f a p').1, (f a p').2.1, t' ++ (f a p').2.2) := by
      simp only [Bind.bind, eq]
    rw [eq] at lawful' post
    rw [whole]
    have next := last a (t ++ t') p' lawful' (post a rfl)
    rw [List.append_assoc] at next
    exact next

end Triple

end Activity

def Running (t : Transcript) : Prop := ∀ o ∈ t, o ≠ .called .finish

theorem Running.snoc {t : Transcript} {o : Occurrence} (h : Running t) (ne : o ≠ .called .finish) :
    Running (t ++ [o]) := by
  intro o' mem
  rcases List.mem_append.1 mem with mem | mem
  . exact h o' mem
  . rw [List.mem_singleton.1 mem]
    exact ne

theorem Running.beforeFinish_append {t : Transcript} (h : Running t) (u : Transcript) :
    Transcript.beforeFinish (t ++ Occurrence.called .finish :: u) = t := by
  unfold Transcript.beforeFinish
  rw [List.takeWhile_append_of_pos, List.takeWhile_cons_of_neg, List.append_nil]
  . simp
  . intro o mem
    split
    . next same => exact absurd rfl (h _ mem)
    . rfl

namespace Protocol

variable {σ : Type} {protocol : Protocol}

def InSync (protocol : Protocol) : Assertion σ := fun t p =>
  p.session = protocol.newSession.follow t.pushed ∧ Running t

theorem InSync.snoc {t : Transcript} {p : Progress σ} {o : Occurrence} (h : protocol.InSync t p)
    (quiet : o.pushed? = none) (ne : o ≠ .called .finish) : protocol.InSync (t ++ [o]) p := by
  refine ⟨?_, h.2.snoc ne⟩
  rw [Transcript.pushed_snoc, quiet, Option.toList_none, List.append_nil]
  exact h.1

end Protocol

namespace Context

variable {α σ : Type} {ctx : Context} {t : Transcript} {session : Session}

def NoCall (o : Occurrence) : Prop := ∀ call, o ≠ .called call

structure Kept (ctx : Context) (t : Transcript) (session : Session) (now : Transcript) : Prop where
  lawful : Lawful ctx.protocol ctx.names (t ++ now)
  sync : session = ctx.protocol.newSession.follow (t ++ now).pushed
  noCall : ∀ o ∈ now, NoCall o

theorem Kept.append {now later : Transcript} {next : Session} (h : ctx.Kept t session now)
    (last : ctx.Kept (t ++ now) next later) : ctx.Kept t next (now ++ later) := by
  constructor
  . rw [← List.append_assoc]
    exact last.lawful
  . rw [← List.append_assoc]
    exact last.sync
  . intro o mem
    rcases List.mem_append.1 mem with mem | mem
    . exact h.noCall o mem
    . exact last.noCall o mem

theorem kept_singleton {o : Occurrence} (lawful : Lawful ctx.protocol ctx.names t)
    (permits : Permits ctx.protocol ctx.names t o) (noCall : NoCall o)
    (sync : session = ctx.protocol.newSession.follow (t.pushed ++ o.pushed?.toList)) :
    ctx.Kept t session [o] := by
  constructor
  . exact lawful.snoc permits
  . rw [Transcript.pushed_snoc]
    exact sync
  . intro o' mem
    rw [List.mem_singleton.1 mem]
    exact noCall

theorem kept_quiet {o : Occurrence} (lawful : Lawful ctx.protocol ctx.names t)
    (sync : session = ctx.protocol.newSession.follow t.pushed)
    (permits : Permits ctx.protocol ctx.names t o) (noCall : NoCall o) (quiet : o.pushed? = none) :
    ctx.Kept t session [o] := by
  apply kept_singleton lawful permits noCall
  rw [quiet, Option.toList_none, List.append_nil]
  exact sync

theorem kept_write (lawful : Lawful ctx.protocol ctx.names t)
    (sync : session = ctx.protocol.newSession.follow t.pushed) (channel : String) (data : Json) :
    ctx.Kept t (ctx.write channel data session).2.1 (ctx.write channel data session).2.2 := by
  have next : session.push (.output channel) =
      ctx.protocol.newSession.follow (t.pushed ++ [.output channel]) := by
    rw [Session.follow_append, ← sync]
    rfl
  unfold write
  match found : ctx.protocol.resolve (.output channel) with
  | .error fault =>
    cases Protocol.resolve_eq_error found
    exact kept_quiet lawful sync True.intro (by simp [NoCall]) rfl
  | .ok type =>
    simp only
    split
    . next illegal =>
      rw [next] at illegal
      exact kept_singleton lawful (not_not.2 illegal) (by simp [NoCall]) next
    . next legal =>
      rw [next] at legal
      have declared := Protocol.mem_keys_of_resolve found
      exact kept_singleton lawful ⟨declared, rfl, legal⟩ (by simp [NoCall]) next

theorem kept_perform (e : Effect α) (lawful : Lawful ctx.protocol ctx.names t)
    (sync : session = ctx.protocol.newSession.follow t.pushed) :
    ctx.Kept t (ctx.perform e session).2.1 (ctx.perform e session).2.2 := by
  induction e generalizing t session with
  | done a =>
    unfold perform
    constructor
    . rwa [List.append_nil]
    . rwa [List.append_nil]
    . simp
  | write channel data next ih =>
    -- the node may go on in another way for each answer, but always from a session in step
    have first := kept_write lawful sync channel data
    have last := ih (ctx.write channel data session).1 first.lawful first.sync
    exact first.append last
  | log text next ih =>
    have first : ctx.Kept t session [.logged ⟨.info, .node, ctx.node ++ ": " ++ text⟩] :=
      kept_quiet lawful sync True.intro (by simp [NoCall]) rfl
    exact first.append (ih first.lawful first.sync)

end Context

namespace Activity

variable {σ : Type} {ctx : Context}

theorem kept_call {call : Call} {t : Transcript} {p : Progress σ} (callback : Callback σ Unit)
    (lawful : Lawful ctx.protocol ctx.names t)
    (permits : Permits ctx.protocol ctx.names t (.called call))
    (sync : p.session = ctx.protocol.newSession.follow (t ++ [Occurrence.called call]).pushed) :
    ∃ now, (Activity.call ctx call callback p).2.2 = Occurrence.called call :: now ∧
      ctx.Kept (t ++ [.called call]) (Activity.call ctx call callback p).2.1.session now :=
  ⟨_, rfl, Context.kept_perform (callback.run.run p.state) (lawful.snoc permits) sync⟩

theorem triple_call {P : Assertion σ} {call : Call} {callback : Callback σ Unit}
    (before : ∀ t p, P t p → Permits ctx.protocol ctx.names t (.called call) ∧
      ctx.protocol.InSync (t ++ [.called call]) p) :
    Triple ctx P (Activity.call ctx call callback) (fun _ => ctx.protocol.InSync) := by
  intro t p lawful holds
  obtain ⟨permits, sync⟩ := before t p holds
  obtain ⟨now, eq, kept⟩ := kept_call callback lawful permits sync.1
  rw [eq, List.append_cons]
  refine ⟨kept.lawful, ?_⟩
  intro _ _
  refine ⟨kept.sync, ?_⟩
  intro o mem
  rcases List.mem_append.1 mem with mem | mem
  . exact sync.2 o mem
  . exact kept.noCall o mem .finish

end Activity

end Interaction
