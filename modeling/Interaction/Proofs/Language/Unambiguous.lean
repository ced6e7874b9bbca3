import Interaction.Proofs.Language.Accepted

/-!
This module contains the proof that a text has one reading: it can be cut into tokens and layout in
one way only, so that the language of a text depends on its tokens alone.
-/

namespace Interaction

open Interaction.Parser

namespace Token

def IsProper : Token → Prop
  | .event e => IsName e.channel
  | _ => True

def initial : Token → Char
  | .event e => if e.direction = .input then 'i' else 'o'
  | .opening => '('
  | .closing => ')'
  | .semicolon => ';'
  | .bar => '|'
  | .sign .star => '*'
  | .sign .plus => '+'
  | .sign .question => '?'

def ofChar? : Char → Option Token
  | '(' => some .opening
  | ')' => some .closing
  | ';' => some .semicolon
  | '|' => some .bar
  | '*' => some (.sign .star)
  | '+' => some (.sign .plus)
  | '?' => some (.sign .question)
  | _ => none

variable {t u : Token}

theorem toList_text_input (channel : String) :
    (Token.event ⟨.input, channel⟩).text.toList = 'i' :: 'n' :: ':' :: channel.toList := by
  simp [text, Event.toList_label, Direction.word]

theorem toList_text_output (channel : String) :
    (Token.event ⟨.output, channel⟩).text.toList = 'o' :: 'u' :: 't' :: ':' :: channel.toList := by
  simp [text, Event.toList_label, Direction.word]

theorem exists_toList_eq_initial (t : Token) : ∃ tail, t.text.toList = t.initial :: tail := by
  cases t with
  | event e =>
    match e with
    | ⟨.input, channel⟩ => exact ⟨_, toList_text_input channel⟩
    | ⟨.output, channel⟩ => exact ⟨_, toList_text_output channel⟩
  | sign s => cases s <;> exact ⟨[], rfl⟩
  | _ => exact ⟨[], rfl⟩

theorem initial_mem (t : Token) : t.initial ∈ ['i', 'o', '(', ')', ';', '|', '*', '+', '?'] := by
  cases t with
  | event e =>
    rw [initial]
    cases e.direction <;> decide
  | sign s => cases s <;> decide
  | _ => decide

theorem event_or_ofChar? (t : Token) :
    (∃ e, t = .event e) ∧ isNameChar t.initial = true ∨
      ofChar? t.initial = some t ∧ t.text.toList = [t.initial] ∧ isNameChar t.initial = false := by
  cases t with
  | event e =>
    refine .inl ⟨⟨e, rfl⟩, ?_⟩
    rw [initial]
    cases e.direction <;> decide
  | sign s => cases s <;> exact .inr ⟨rfl, rfl, by decide⟩
  | _ => exact .inr ⟨rfl, rfl, by decide⟩

theorem exists_event_of_isNameChar (h : isNameChar t.initial = true) : ∃ e, t = .event e := by
  rcases t.event_or_ofChar? with ⟨event, _⟩ | ⟨_, _, other⟩
  . exact event
  . rw [h] at other
    cases other

end Token

/-- Whether a text consists of proper tokens, with layout before, between and after them. -/
def Tokenized (text : List Char) (ts : List Token) : Prop :=
  (∀ t ∈ ts, t.IsProper) ∧ ∃ start, Skips text start ∧ Spelling ts start []

namespace Tokenized

variable {a b text : List Char} {ts us : List Token} {t u : Token} {x : Char} {s s' : String}

theorem of_settled (h : Tokenized (x :: text) ts) (settled : Settled (x :: text)) :
    ∃ t us rest, x :: text = t.text.toList ++ rest ∧ ts = t :: us := by
  obtain ⟨_, start, skips, spelling⟩ := h
  rw [skips.eq_of_settled settled] at spelling
  generalize eq : x :: text = whole at spelling
  cases spelling with
  | nil => cases eq
  | @cons t us rest => exact ⟨t, us, rest, rfl, rfl⟩

theorem head_mem (h : Tokenized (x :: text) ts) (settled : Settled (x :: text)) :
    ∃ t : Token, x = t.initial ∧ ∃ rest, x :: text = t.text.toList ++ rest := by
  obtain ⟨t, us, rest, eq, _⟩ := h.of_settled settled
  obtain ⟨tail, initial⟩ := t.exists_toList_eq_initial
  refine ⟨t, ?_, rest, eq⟩
  rw [initial] at eq
  exact (List.cons.inj eq).1

theorem not_of_mem (mem : x ∈ ['n', 'u', 't', ':']) : ¬Tokenized (x :: text) ts := by
  have noLayout : (['n', 'u', 't', ':'].all fun x => !isSpace x && x != '/') = true := by decide
  have noToken : ∀ x ∈ ['n', 'u', 't', ':'],
      x ∉ ['i', 'o', '(', ')', ';', '|', '*', '+', '?'] := by simp
  intro h
  obtain ⟨t, rfl, _⟩ := h.head_mem (settled_cons_of_mem noLayout mem)
  exact noToken _ mem t.initial_mem

theorem settled_of_isNameChar (h : isNameChar x = true) : Settled (x :: text) := by
  apply settled_cons
  . rw [← Bool.not_eq_true]
    intro isSpace
    rw [isNameChar_of_isSpace isSpace] at h
    cases h
  . rintro rfl
    exact absurd h (by decide)

theorem exists_head_of_colon {w rest : List Char} (names : a.all isNameChar = true)
    (eq : a ++ b = w ++ ':' :: rest) : ∃ y tail, b = y :: tail ∧ y ∈ w ++ [':'] := by
  rcases List.append_eq_append_iff.1 eq with ⟨between, rfl, rfl⟩ | ⟨between, rfl, eq'⟩
  . cases between with
    | nil => exact ⟨':', rest, rfl, by simp⟩
    | cons y between => exact ⟨y, between ++ ':' :: rest, rfl, by simp⟩
  . cases between with
    | nil => exact ⟨':', rest, eq'.symm, by simp⟩
    | cons y between =>
      rw [List.cons_append, List.cons.injEq] at eq'
      rw [← eq'.1] at names
      simp [isNameChar] at names

theorem eq_nil_of_names (names : a.all isNameChar = true) (whole : Tokenized (a ++ b) ts)
    (rest : Tokenized b us) : a = [] := by
  match a with
  | [] => rfl
  | x :: a =>
    rw [List.all_cons, Bool.and_eq_true] at names
    obtain ⟨t, rfl, tail, eq⟩ := whole.head_mem (settled_of_isNameChar names.1)
    obtain ⟨e, rfl⟩ := Token.exists_event_of_isNameChar names.1
    -- the colon of the event is no character of the name, so that the name ends before it
    have ended : ∃ y tail, b = y :: tail ∧ y ∈ ['n', 'u', 't', ':'] := by
      match e with
      | ⟨.input, channel⟩ =>
        rw [Token.toList_text_input] at eq
        obtain ⟨y, tail, same, mem⟩ :=
          exists_head_of_colon (w := ['n']) names.2 (List.cons.inj eq).2
        exact ⟨y, tail, same, (by decide : ['n', ':'] ⊆ ['n', 'u', 't', ':']) mem⟩
      | ⟨.output, channel⟩ =>
        rw [Token.toList_text_output] at eq
        obtain ⟨y, tail, same, mem⟩ :=
          exists_head_of_colon (w := ['u', 't']) names.2 (List.cons.inj eq).2
        exact ⟨y, tail, same, List.mem_cons_of_mem _ mem⟩
    obtain ⟨y, tail, rfl, mem⟩ := ended
    exact absurd rest (not_of_mem mem)

theorem name_unique (isName : IsName s) (isName' : IsName s') (h : Tokenized a ts)
    (h' : Tokenized b us) (eq : s.toList ++ a = s'.toList ++ b) : s = s' ∧ a = b := by
  have same : s.toList = s'.toList := by
    rcases List.append_eq_append_iff.1 eq with ⟨more, longer, rfl⟩ | ⟨more, longer, rfl⟩
    . have names := isName'.2
      rw [longer, List.all_append, Bool.and_eq_true] at names
      rw [longer, eq_nil_of_names names.2 h h', List.append_nil]
    . have names := isName.2
      rw [longer, List.all_append, Bool.and_eq_true] at names
      rw [longer, eq_nil_of_names names.2 h' h, List.append_nil]
  rw [same] at eq
  exact ⟨String.toList_inj.1 same, List.append_cancel_left eq⟩

theorem token_unique (proper : t.IsProper) (proper' : u.IsProper) (h : Tokenized a ts)
    (h' : Tokenized b us) (eq : t.text.toList ++ a = u.text.toList ++ b) : t = u ∧ a = b := by
  have initial_eq : t.initial = u.initial := by
    obtain ⟨tail, text⟩ := t.exists_toList_eq_initial
    obtain ⟨tail', text'⟩ := u.exists_toList_eq_initial
    rw [text, text'] at eq
    exact (List.cons.inj eq).1
  rcases t.event_or_ofChar? with ⟨⟨e, rfl⟩, isEvent⟩ | ⟨char, text, other⟩
  . rw [initial_eq] at isEvent
    obtain ⟨e', rfl⟩ := Token.exists_event_of_isNameChar isEvent
    match e, e' with
    | ⟨d, channel⟩, ⟨d', channel'⟩ =>
      have direction_eq : d = d' := by cases d <;> cases d' <;> first | rfl | cases initial_eq
      subst direction_eq
      rw [Token.text, Token.text, Event.toList_label, Event.toList_label, List.append_assoc,
        List.append_assoc, List.append_cancel_left_eq] at eq
      obtain ⟨rfl, rest⟩ := name_unique proper proper' h h' eq
      exact ⟨rfl, rest⟩
  . rcases u.event_or_ofChar? with ⟨_, isEvent⟩ | ⟨char', text', _⟩
    . rw [← initial_eq, other] at isEvent
      cases isEvent
    . rw [text, text', initial_eq] at eq
      rw [initial_eq, char'] at char
      exact ⟨(Option.some.inj char).symm, (List.cons.inj eq).2⟩

theorem start_unique {start start' : List Char} (skips : Skips text start)
    (spelling : Spelling ts start []) (skips' : Skips text start')
    (spelling' : Spelling us start' []) : start = start' :=
  skips.unique (spelling.settled settled_nil) skips' (spelling'.settled settled_nil)

theorem unique (h : Tokenized text ts) (h' : Tokenized text us) : ts = us := by
  induction ts generalizing text us with
  | nil =>
    obtain ⟨_, start, skips, spelling⟩ := h
    obtain ⟨_, start', skips', spelling'⟩ := h'
    have same := start_unique skips spelling skips' spelling'
    cases spelling
    match us with
    | [] => rfl
    | u :: us =>
      have less := spelling'.length_lt (List.cons_ne_nil u us)
      rw [← same] at less
      exact absurd less (Nat.lt_irrefl _)
  | cons t ts ih =>
    obtain ⟨proper, start, skips, spelling⟩ := h
    obtain ⟨proper', start', skips', spelling'⟩ := h'
    have same := start_unique skips spelling skips' spelling'
    match us with
    | [] =>
      cases spelling'
      have less := spelling.length_lt (List.cons_ne_nil t ts)
      rw [same] at less
      exact absurd less (Nat.lt_irrefl _)
    | u :: us =>
      rw [List.forall_mem_cons] at proper proper'
      cases spelling with
      | cons after rest =>
        generalize eq : t.text.toList ++ _ = whole at *
        cases spelling' with
        | cons after' rest' =>
          have tail : Tokenized _ ts := ⟨proper.2, _, after, rest⟩
          have tail' : Tokenized _ us := ⟨proper'.2, _, after', rest'⟩
          obtain ⟨rfl, rfl⟩ := token_unique proper.1 proper'.1 tail tail' (eq.trans same)
          rw [ih tail tail']

end Tokenized

theorem Derives.isProper {i : Category} {ts : List Token} {ls : List Language}
    (h : Derives i ts ls) : ∀ t ∈ ts, t.IsProper := by
  induction h with
  | event isName => simpa [Token.IsProper] using isName
  | group _ ih => simpa [Token.IsProper, or_imp, forall_and] using ih
  | plain _ ih => exact ih
  | signed s _ ih => simpa [Token.IsProper, or_imp, forall_and] using ih
  | joined _ _ ih ih' => exact List.forall_mem_append.2 ⟨ih, ih'⟩
  | none => simp
  | @another k _ _ _ _ _ _ ih ih' =>
    have separator : k.separator.IsProper := by cases k <;> exact True.intro
    exact List.forall_mem_cons.2 ⟨separator, List.forall_mem_append.2 ⟨ih, ih'⟩⟩

namespace Language

variable {text text' : String} {l m : Language} {ts us : List Token}

theorem parse_eq_ok_iff_tokenized : parse text = .ok l ↔
    ∃ ts, Tokenized text.toList ts ∧ Derives (.joined .choice) ts [l] := by
  rw [parse_eq_ok_iff_derives]
  constructor
  . rintro ⟨ts, start, skips, spelling, derives⟩
    exact ⟨ts, ⟨derives.isProper, start, skips, spelling⟩, derives⟩
  . rintro ⟨ts, ⟨_, start, skips, spelling⟩, derives⟩
    exact ⟨ts, start, skips, spelling, derives⟩

theorem parse_eq_ok_iff_of_tokenized (h : Tokenized text.toList ts) :
    parse text = .ok l ↔ Derives (.joined .choice) ts [l] := by
  rw [parse_eq_ok_iff_tokenized]
  constructor
  . rintro ⟨us, h', derives⟩
    rw [h.unique h']
    exact derives
  . intro derives
    exact ⟨ts, h, derives⟩

/--
A text is read as a language exactly if it consists of tokens, with layout before, between and after
them, from which the grammar derives the language. A text has no two such readings, and texts that
differ in their layout only are read alike.
-/
theorem parse_ok_iff_reading (text : String) :
    (∀ l, parse text = .ok l ↔
      ∃ ts, Tokenized text.toList ts ∧ Derives (.joined .choice) ts [l]) ∧
    (∀ ts us l m, Tokenized text.toList ts → Derives (.joined .choice) ts [l] →
      Tokenized text.toList us → Derives (.joined .choice) us [m] → ts = us ∧ l = m) ∧
    ∀ text' ts, Tokenized text.toList ts → Tokenized text'.toList ts →
      ∀ l, parse text = .ok l ↔ parse text' = .ok l := by
  refine ⟨fun l => parse_eq_ok_iff_tokenized, ?_, ?_⟩
  . intro ts us l m h derives h' derives'
    have first := (parse_eq_ok_iff_of_tokenized h).2 derives
    have second := (parse_eq_ok_iff_of_tokenized h').2 derives'
    rw [first, Except.ok.injEq] at second
    exact ⟨h.unique h', second⟩
  . intro text' ts h h' l
    rw [parse_eq_ok_iff_of_tokenized h, parse_eq_ok_iff_of_tokenized h']

theorem parse_ok_iff_reading_commented :
    ∃ ts, Derives (.joined .choice) ts [.sequence [.input "a", .zeroOrMore (.output "c")]] ∧
      Tokenized "in:a;out:c *".toList ts ∧ Tokenized "in:a//b\n;out:c*// d".toList ts ∧
      parse "in:a//b\n;out:c*// d" =
        .ok (.sequence [.input "a", .zeroOrMore (.output "c")]) := by
  have derives : Derives (.joined .choice) _ _ := .joined (k := .choice)
    (.joined (k := .sequence) (.plain (.event (e := .input "a") (by decide)))
      (.another (.signed .star (.event (e := .output "c") (by decide))) (.none _))) (.none _)
  have plain : "in:a;out:c *".toList = (Token.event (.input "a")).text.toList ++
      (Token.semicolon.text.toList ++ ((Token.event (.output "c")).text.toList ++
        (' ' :: ((Token.sign .star).text.toList ++ [])))) := by decide
  have commented : "in:a//b\n;out:c*// d".toList = (Token.event (.input "a")).text.toList ++
      ('/' :: '/' :: (['b'] ++ '\n' :: (Token.semicolon.text.toList ++
        ((Token.event (.output "c")).text.toList ++ ((Token.sign .star).text.toList ++
          ('/' :: '/' :: ([' ', 'd'] ++ []))))))) := by decide
  have h : Tokenized "in:a;out:c *".toList _ := ⟨derives.isProper, _, .done _, by
    rw [plain]
    exact .cons (.done _) (.cons (.done _) (.cons (.space rfl (.done _))
      (.cons (.done _) (.nil _))))⟩
  have h' : Tokenized "in:a//b\n;out:c*// d".toList _ := ⟨derives.isProper, _, .done _, by
    rw [commented]
    exact .cons (.comment (by decide) (by simp) (.space rfl (.done _))) (.cons (.done _)
      (.cons (.done _) (.cons (.comment (by decide) (by simp) (.done _)) (.nil _))))⟩
  have reading := parse_ok_iff_reading "in:a;out:c *"
  refine ⟨_, derives, h, h', ?_⟩
  rw [← reading.2.2 _ _ h h', reading.1]
  exact ⟨_, h, derives⟩

end Language

end Interaction
