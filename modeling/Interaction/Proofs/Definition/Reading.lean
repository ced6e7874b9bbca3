import Interaction.Proofs.Definition.Grammar
import Interaction.Proofs.Language.Accepted

/-!
This module contains what the reader of definition files finds: the definitions that a text has
according to the grammar.
-/

namespace Interaction

open Interaction.Parser

namespace Definition

variable {t rest : List Char} {s type : String} {names bs : List String}

section Quoted

theorem exists_eq_untilQuote_append (t : List Char) : ∃ rest, t = untilQuote t ++ rest := by
  fun_induction untilQuote t with
  | case1 => exact ⟨[], rfl⟩
  | case2 c text ih =>
    obtain ⟨rest, eq⟩ := ih
    exact ⟨rest, congrArg ('\\' :: c :: ·) eq⟩
  | case3 text => exact ⟨_, rfl⟩
  | case4 c text _ _ ih =>
    obtain ⟨rest, eq⟩ := ih
    exact ⟨rest, congrArg (c :: ·) eq⟩

theorem untilQuote_append (h : Quotable t) : untilQuote (t ++ '"' :: rest) = t := by
  induction h with
  | nil => rfl
  | plain ne noEscape _ ih => simp [untilQuote, ne, noEscape, ih]
  | escaped _ ih => simp [untilQuote, ih]

theorem quotable_untilQuote (h : t = untilQuote t ++ '"' :: rest) : Quotable (untilQuote t) := by
  fun_induction untilQuote t with
  | case1 => exact .nil
  | case2 c text ih => exact .escaped (ih (by simpa using h))
  | case3 => exact .nil
  | case4 c text noEscape ne ih =>
    have eq : text = untilQuote text ++ '"' :: rest := by simpa using h
    refine .plain ne ?_ (ih eq)
    -- a backslash would have a character after it
    rintro rfl
    cases text with
    | nil => simp [untilQuote] at eq
    | cons c text => exact noEscape c text rfl rfl

theorem reads_parseQuotedText : Reads parseQuotedText id fun t s rest =>
    s = untilQuote t ∧ t = s ++ rest := by
  intro c s rest
  have result_eq : parseQuotedText.result c =
      some (untilQuote c.rest, c.forward (untilQuote c.rest).length) :=
    result_expecting
  obtain ⟨others, eq⟩ := exists_eq_untilQuote_append c.rest
  have forward : (c.forward (untilQuote c.rest).length).rest = others := by
    rw [Cursor.rest_forward]
    conv =>
      lhs
      arg 2
      rw [eq]
    exact List.drop_left
  constructor
  . rintro ⟨_, _, found, rfl, rfl⟩
    rw [result_eq] at found
    cases found
    rw [forward]
    exact ⟨rfl, eq⟩
  . rintro ⟨rfl, eq'⟩
    refine ⟨_, _, result_eq, rfl, ?_⟩
    rw [forward]
    exact List.append_cancel_left (eq.symm.trans eq')

theorem reads_parseQuoted : Reads parseQuoted id fun t s rest =>
    Quotable s ∧ t = '"' :: (s ++ '"' :: rest) := by
  have steps := ((reads_literal "\"").skip fun _ => reads_parseQuotedText.andThen fun s =>
    (reads_literal "\"").skip fun _ => reads_pure id s s rfl).expecting .quoted
  apply steps.congr
  intro t s rest
  constructor
  . rintro ⟨_, rfl, _, _, ⟨rfl, eq⟩, _, rfl, rfl, rfl⟩
    exact ⟨quotable_untilQuote eq, congrArg ('"' :: ·) eq⟩
  . rintro ⟨quotable, rfl⟩
    exact ⟨_, rfl, s, _, ⟨(untilQuote_append quotable).symm, rfl⟩, _, rfl, rfl, rfl⟩

end Quoted

theorem meaning_ofList (quoted : List Char) :
    meaning (String.ofList quoted) = String.ofList (unescape (Text.trim quoted)) := by
  unfold meaning
  rw [String.toList_ofList]

theorem reads_parseDescription : Reads parseDescription DefinitionPart.outline fun t p rest =>
    OutlinePart.Written t p rest ∧ ∃ text, p = .description text := by
  have steps := (Reads.skipOffset fun start => (reads_literal "description").skip fun _ =>
    reads_parseQuoted.next (by
      rintro t s rest ⟨_, rfl⟩
      exact settled_cons (by decide) (by decide)) fun quoted =>
    Reads.skipTo ";" (fun _ => settled_cons (by decide) (by decide)) <|
    Reads.skipOffset fun stop => reads_pure DefinitionPart.outline
      (.description (unescape (Text.trim quoted)) start stop)
      (.description (meaning (String.ofList quoted)))
      (by rw [meaning_ofList]; rfl)).expecting .description
  apply steps.congr
  intro t p rest
  constructor
  . rintro ⟨_, rfl, _, quoted, _, skips, ⟨quotable, rfl⟩, _, skips', rfl, rfl⟩
    rw [← String.toList_ofList (l := quoted)] at skips quotable
    exact ⟨.description skips quotable skips', _, rfl⟩
  . rintro ⟨written, text, rfl⟩
    cases written with
    | @description quoted _ _ _ skips quotable skips' =>
      refine ⟨_, rfl, _, quoted.toList, _, skips, ⟨quotable, rfl⟩, _, skips', ?_, rfl⟩
      rw [String.ofList_toList]

section Types

def Dotted (t : List Char) (b : String) (rest : List Char) : Prop :=
  ∃ name, IsName name ∧ b = "." ++ name ∧ t = '.' :: (name.toList ++ rest) ∧ NameEnds rest

def TypeEnds (t : List Char) : Prop := NameEnds t ∧ ∀ tail, t = '.' :: tail → NameEnds tail

theorem TypeEnds.of_skips {x : Char} (skips : Skips t (x :: rest)) (other : isNameChar x = false)
    (ne : x ≠ '.') : TypeEnds t := by
  refine ⟨(nameEnds_cons other).of_skips skips, ?_⟩
  rintro tail rfl
  cases skips with
  | done => exact absurd rfl ne
  | space isSpace => exact absurd isSpace (by decide)

theorem notDotted_iff : (∀ b rest, ¬Dotted t b rest) ↔ ∀ tail, t = '.' :: tail → NameEnds tail := by
  constructor
  . intro none tail eq
    apply Classical.byContradiction
    intro goesOn
    obtain ⟨name, rest, isName, rfl, ends⟩ := exists_name_of_not_nameEnds goesOn
    exact none _ rest ⟨name, isName, rfl, eq, ends⟩
  . rintro ends b rest ⟨name, isName, _, eq, _⟩
    have start := ends _ eq
    match text : name.toList with
    | [] => exact isName.ne_nil text
    | x :: tail =>
      have isNameChar := isName.2
      rw [text, List.all_cons, Bool.and_eq_true] at isNameChar
      rw [text] at start
      rw [start x rfl] at isNameChar
      cases isNameChar.1

theorem intercalate_cons {first : String} : ".".intercalate (first :: names) =
    first ++ String.join (names.map ("." ++ ·)) := by
  induction names generalizing first with
  | nil => simp [String.intercalate_singleton]
  | cons name names ih =>
    rw [String.intercalate_cons_cons, ih, List.map_cons, String.join_cons]
    simp only [String.append_assoc]

theorem exists_names_of_chain (h : Chain Dotted t bs rest) (ends : NameEnds t) :
    ∃ names : List String, (∀ name ∈ names, IsName name) ∧ bs = names.map ("." ++ ·) ∧
      t = (String.join bs).toList ++ rest ∧ NameEnds rest := by
  induction h with
  | nil t => exact ⟨[], by simp, rfl, rfl, ends⟩
  | cons step _ ih =>
    obtain ⟨name, isName, rfl, rfl, ends'⟩ := step
    obtain ⟨names, all, rfl, rfl, last⟩ := ih ends'
    refine ⟨name :: names, ?_, rfl, ?_, last⟩
    . simpa [isName] using all
    . simp [String.join_cons]

theorem chain_of_names (all : ∀ name ∈ names, IsName name) (ends : NameEnds rest) :
    Chain Dotted ((String.join (names.map ("." ++ ·))).toList ++ rest)
      (names.map ("." ++ ·)) rest ∧
    NameEnds ((String.join (names.map ("." ++ ·))).toList ++ rest) := by
  induction names with
  | nil => exact ⟨.nil rest, ends⟩
  | cons name names ih =>
    obtain ⟨chain, ends'⟩ := ih fun n mem => all n (List.mem_cons_of_mem _ mem)
    have text : (String.join ((name :: names).map ("." ++ ·))).toList ++ rest =
        '.' :: (name.toList ++ ((String.join (names.map ("." ++ ·))).toList ++ rest)) := by
      simp [String.join_cons]
    rw [text]
    constructor
    . exact .cons ⟨name, all name List.mem_cons_self, rfl, rfl, ends'⟩ chain
    . exact nameEnds_cons (by decide)

theorem settled_of_isPayloadType (h : IsPayloadType type) : Settled (type.toList ++ rest) := by
  obtain ⟨names, some, all, rfl⟩ := h
  cases names with
  | nil => exact absurd rfl some
  | cons first names =>
    rw [intercalate_cons, String.toList_append, List.append_assoc]
    exact (all first List.mem_cons_self).settled

theorem reads_parsePayloadType : Reads parsePayloadType id fun t type rest =>
    IsPayloadType type ∧ t = type.toList ++ rest ∧ TypeEnds rest := by
  have dotted : Reads (do literal "."; let name ← takeWhile1 isNameChar; pure ("." ++ name))
      id Dotted := by
    apply ((reads_literal ".").skip fun _ => reads_takeWhile1.andThen fun name =>
      reads_pure id ("." ++ name) _ rfl).congr
    intro t b rest
    constructor
    . rintro ⟨_, rfl, name, _, ⟨isName, rfl, ends⟩, rfl, rfl⟩
      exact ⟨name, isName, rfl, rfl, ends⟩
    . rintro ⟨name, isName, rfl, rfl, ends⟩
      exact ⟨_, rfl, name, _, ⟨isName, rfl, ends⟩, rfl, rfl⟩
  have moves : ∀ t b rest, Dotted t b rest → rest.length < t.length := by
    rintro _ _ rest ⟨name, _, _, rfl, _⟩
    simp only [List.length_cons, List.length_append]
    omega
  have steps := (reads_takeWhile1.andThen fun first => (dotted.many moves).bind
    (S := fun bs t type rest => type = first ++ String.join bs ∧ rest = t)
    fun others => reads_pure id (first ++ String.join others) _
      (by rw [List.map_id]; rfl)).expecting .payloadType
  apply steps.congr
  intro t type rest
  constructor
  . rintro ⟨first, _, ⟨isName, rfl, ends⟩, bs, _, ⟨chain, stops⟩, rfl, rfl⟩
    -- what is read ends where no dot and name come next
    obtain ⟨names, all, rfl, rfl, ends'⟩ := exists_names_of_chain chain ends
    refine ⟨⟨first :: names, by simp, ?_, ?_⟩, ?_, ends', notDotted_iff.1 stops⟩
    . simpa [isName] using all
    . exact intercalate_cons.symm
    . rw [String.toList_append, List.append_assoc]
  . rintro ⟨⟨names, some, all, rfl⟩, rfl, ends, stops⟩
    cases names with
    | nil => exact absurd rfl some
    | cons first names =>
      obtain ⟨chain, ends'⟩ := chain_of_names
        (fun n mem => all n (List.mem_cons_of_mem _ mem)) ends
      rw [intercalate_cons, String.toList_append, List.append_assoc]
      exact ⟨first, _, ⟨all first List.mem_cons_self, rfl, ends'⟩, _, _,
        ⟨chain, notDotted_iff.2 stops⟩, rfl, rfl⟩

end Types

theorem reads_parseDirection : Reads parseDirection id fun t d rest =>
    t = d.word.toList ++ rest ∧ NameEnds rest := by
  have input := (reads_literal "in").skip fun _ => reads_pure id Direction.input _ rfl
  have output := (reads_literal "out").skip fun _ => reads_pure id Direction.output _ rfl
  have disjoint : ∀ a b : List Char, "in".toList ++ a ≠ "out".toList ++ b := by
    intro a b eq
    cases (List.cons.inj eq).1
  have either := input.orElse_of_disjoint output (by
    rintro t d rest d' rest' ⟨_, rfl, _⟩ ⟨_, eq, _⟩
    exact disjoint _ _ eq)
  have steps := (either.andThen fun d => reads_notBefore.skip fun _ =>
    reads_pure id d _ rfl).expecting .direction
  apply steps.congr
  intro t d rest
  constructor
  . rintro ⟨_, _, ⟨_, rfl, rfl, rfl⟩ | ⟨_, rfl, rfl, rfl⟩, _, ⟨ends, rfl⟩, rfl, rfl⟩
    . exact ⟨rfl, ends⟩
    . exact ⟨rfl, ends⟩
  . rintro ⟨rfl, ends⟩
    cases d with
    | input => exact ⟨_, _, .inl ⟨_, rfl, rfl, rfl⟩, _, ⟨ends, rfl⟩, rfl, rfl⟩
    | output => exact ⟨_, _, .inr ⟨_, rfl, rfl, rfl⟩, _, ⟨ends, rfl⟩, rfl, rfl⟩

theorem settled_of_name : ∀ t s rest, IsName s ∧ t = s.toList ++ rest ∧ NameEnds rest →
    Settled t := by
  rintro _ s rest ⟨isName, rfl, _⟩
  exact isName.settled

theorem reads_parseChannel : Reads parseChannel DefinitionPart.outline fun t p rest =>
    OutlinePart.Written t p rest ∧ ∃ e type, p = .channel e type := by
  have steps := (Reads.skipOffset fun start => reads_parseDirection.andThen fun d =>
    reads_name.next settled_of_name fun channel =>
    Reads.skipTo ":" (fun _ => settled_cons (by decide) (by decide)) <|
    reads_parsePayloadType.next (by
      rintro t type rest ⟨isType, rfl, _⟩
      exact settled_of_isPayloadType isType) fun type =>
    Reads.skipTo ";" (fun _ => settled_cons (by decide) (by decide)) <|
    Reads.skipOffset fun stop => reads_pure DefinitionPart.outline
      (.channel ⟨⟨d, channel⟩, type, start, stop⟩) (.channel ⟨d, channel⟩ type)
      rfl).expecting .channelDeclaration
  apply steps.congr
  intro t p rest
  constructor
  . rintro ⟨d, _, ⟨rfl, ends⟩, _, channel, _, skips, ⟨isName, rfl, _⟩, _, skips₁,
      _, type, _, skips₂, ⟨isType, rfl, _⟩, _, skips₃, rfl, rfl⟩
    exact ⟨.channel (e := ⟨d, channel⟩) ends skips isName skips₁ skips₂ isType skips₃, _, _, rfl⟩
  . rintro ⟨written, e, type, rfl⟩
    cases written with
    | channel ends skips isName skips₁ skips₂ isType skips₃ =>
      have nameEnds := (nameEnds_cons (by decide)).of_skips skips₁
      have typeEnds := TypeEnds.of_skips skips₃ (by decide) (by decide)
      exact ⟨_, _, ⟨rfl, ends⟩, _, _, _, skips, ⟨isName, rfl, nameEnds⟩, _, skips₁,
        _, _, _, skips₂, ⟨isType, rfl, typeEnds⟩, _, skips₃, rfl, rfl⟩

def parseInner : Parser LanguageText := do
  let text ← Language.parseChoice
  layout
  literal "\x7d"
  pure text

theorem reads_parseInner : Reads parseInner (·.language) fun t l rest =>
    ∃ ts, Derives (.joined .choice) ts [l] ∧ Spelling ts t ('\x7d' :: rest) := by
  intro c l rest
  unfold parseInner
  simp only [result_bind_eq_some_iff]
  constructor
  . rintro ⟨_, _, ⟨text, c₁, read, _, c₂, after, _, c₃, closing, last⟩, rfl, rfl⟩
    cases last
    obtain ⟨ts, derives, spelling⟩ := Language.sound_parseChoice _ _ _ read
    refine ⟨ts, derives, spelling.skips (derives.tokens_ne_nil (by simp)) ?_⟩
    have skips := (skips_of_layout after).1
    rw [rest_of_literal closing] at skips
    exact skips
  . rintro ⟨ts, derives, spelling⟩
    have follows : (Category.joined .choice).Follows ('\x7d' :: rest) :=
      Category.follows_cons (by decide)
    obtain ⟨text, c₁, found, isOne, skips⟩ :=
      Language.reads_of_derives derives c c _ (Nat.le_refl _) follows spelling
    cases isOne
    obtain ⟨c₂, after, text₂⟩ := result_layout_of skips follows.settled
    obtain ⟨c₃, closing, rfl⟩ := result_literal_of (s := "\x7d") text₂
    exact ⟨text, c₃, ⟨text, c₁, Language.result_parseChoice.trans found, (), c₂, after,
      (), c₃, closing, rfl⟩, rfl, rfl⟩

theorem result_parseLanguage (c : Cursor) : parseLanguage.result c =
    (do
      let start ← offset
      literal "language"
      layout
      literal "\x7b"
      layout
      let text ← parseInner
      let stop ← offset
      pure (.language text start stop) : Parser DefinitionPart).result c := by
  unfold parseLanguage parseInner
  simp only [result_expecting, result_bind, Option.bind_assoc, result_pure, Option.bind_some]

theorem reads_parseLanguage : Reads parseLanguage DefinitionPart.outline fun t p rest =>
    OutlinePart.Written t p rest ∧ ∃ l, p = .language l := by
  have steps := Reads.skipOffset fun start => (reads_literal "language").skip fun _ =>
    Reads.skipTo "\x7b" (fun _ => settled_cons (by decide) (by decide)) <|
    Reads.afterLayout (reads_parseInner.bind
      (S := fun l t p rest => p = OutlinePart.language l ∧ rest = t)
      fun text => Reads.skipOffset fun stop => reads_pure DefinitionPart.outline
        (.language text start stop) _ rfl) (by
      rintro t p rest ⟨l, _, ⟨ts, _, spelling⟩, _⟩
      exact spelling.settled (settled_cons (by decide) (by decide)))
  apply (steps.of_result_eq result_parseLanguage).congr
  intro t p rest
  constructor
  . rintro ⟨_, rfl, _, skips, _, skips', l, _, ⟨ts, derives, spelling⟩, rfl, rfl⟩
    exact ⟨.language skips skips' spelling derives, l, rfl⟩
  . rintro ⟨written, l, rfl⟩
    cases written with
    | language skips skips' spelling derives =>
      exact ⟨_, rfl, _, skips, _, skips', l, _, ⟨_, derives, spelling⟩, rfl, rfl⟩

def parsePart : Parser DefinitionPart := parseDescription <|> parseChannel <|> parseLanguage

theorem reads_parsePart : Reads parsePart DefinitionPart.outline OutlinePart.Written := by
  -- the kinds of parts begin with different characters
  have channelOrLanguage := reads_parseChannel.orElse_of_disjoint reads_parseLanguage (by
    rintro t p rest p' rest' ⟨written, ⟨d, _⟩, _, rfl⟩ ⟨written', _, rfl⟩
    have initials := written.initial_eq written'
    cases d <;> cases initials)
  have any := reads_parseDescription.orElse_of_disjoint channelOrLanguage (by
    rintro t p rest p' rest' ⟨written, _, rfl⟩ (⟨written', ⟨d, _⟩, _, rfl⟩ | ⟨written', _, rfl⟩)
    . have initials := written.initial_eq written'
      cases d <;> cases initials
    . cases written.initial_eq written')
  apply any.congr
  intro t p rest
  constructor
  . rintro (⟨written, _⟩ | ⟨written, _⟩ | ⟨written, _⟩) <;> exact written
  . intro written
    cases p with
    | description text => exact .inl ⟨written, text, rfl⟩
    | channel e type => exact .inr (.inl ⟨written, e, type, rfl⟩)
    | language l => exact .inr (.inr ⟨written, l, rfl⟩)

theorem reads_parseKeyword : Reads parseKeyword (fun _ => ()) fun t _ rest =>
    t = "protocol".toList ++ rest ∧ NameEnds rest := by
  have steps := (reads_literal "protocol").skip fun _ => reads_notBefore
  apply (steps.expecting .protocolKeyword).congr
  intro t _ rest
  constructor
  . rintro ⟨_, rfl, ends, rfl⟩
    exact ⟨rfl, ends⟩
  . rintro ⟨rfl, ends⟩
    exact ⟨_, rfl, ends, rfl⟩

theorem result_parse (c : Cursor) : parse.result c =
    (do
      let start ← offset
      parseKeyword
      layout
      let name ← Parser.name
      layout
      literal "\x7b"
      let parts ← spaced parsePart
      literal "\x7d"
      let stop ← offset
      pure ⟨name, parts, start, stop⟩ : Parser Definition).result c := by
  unfold parse spaced parsePart
  simp only [result_expecting, result_bind, Option.bind_assoc, result_pure, Option.bind_some]

theorem reads_parse : Reads parse outline Outline.Written := by
  have parts := reads_parsePart.spaced (fun _ _ _ => OutlinePart.Written.settled)
    (fun _ _ _ => OutlinePart.Written.length_lt)
  have steps := Reads.skipOffset fun start => reads_parseKeyword.skip fun _ =>
    reads_name.next settled_of_name fun name =>
    Reads.skipTo "\x7b" (fun _ => settled_cons (by decide) (by decide)) <|
    parts.bind (S := fun os t o rest => t = '\x7d' :: rest ∧ o = Outline.mk name os) fun ds =>
      ((reads_literal "\x7d").skip fun _ => Reads.skipOffset fun stop => reads_pure outline
        ⟨name, ds, start, stop⟩ _ rfl).congr (by
          intro t o rest
          constructor
          . rintro ⟨_, rfl, rfl, rfl⟩
            exact ⟨rfl, rfl⟩
          . rintro ⟨rfl, rfl⟩
            exact ⟨_, rfl, rfl, rfl⟩)
  apply (steps.of_result_eq result_parse).congr
  intro t o rest
  constructor
  . rintro ⟨_, ⟨rfl, ends⟩, _, name, _, skips, ⟨isName, rfl, _⟩, _, skips₁, os, _,
      ⟨_, skips₂, chain, _⟩, rfl, rfl⟩
    exact .protocol (o := ⟨name, os⟩) ends skips isName skips₁ skips₂ chain
  . intro written
    cases written with
    | protocol ends skips isName skips₁ skips₂ chain =>
      have nameEnds := (nameEnds_cons (by decide)).of_skips skips₁
      have settled : Settled ('\x7d' :: rest) := settled_cons (by decide) (by decide)
      -- the reader of parts stops at the brace, where no part begins
      exact ⟨_, ⟨rfl, ends⟩, _, _, _, skips, ⟨isName, rfl, nameEnds⟩, _, skips₁, _, _,
        ⟨_, skips₂, chain, settled, OutlinePart.not_written_of_brace⟩, rfl, rfl⟩

theorem result_parseFile (c : Cursor) : parseFile.result c =
    (do
      let definitions ← spaced parse
      endOfText
      pure definitions : Parser (List Definition)).result c := by
  unfold parseFile spaced
  simp only [result_expecting, result_bind, Option.bind_assoc, result_pure, Option.bind_some]

theorem reads_parseFile : Reads parseFile (List.map outline) fun t os rest =>
    Outline.FileText t os ∧ rest = [] := by
  have definitions := reads_parse.spaced (fun _ _ _ => Outline.Written.settled)
    (fun _ _ _ => Outline.Written.length_lt)
  have steps := definitions.bind (S := fun os t os' rest => (t = [] ∧ rest = []) ∧ os' = os)
    fun ds => (reads_endOfText.skip fun _ => reads_pure (List.map outline) ds _
      rfl).congr (by
        intro t os rest
        constructor
        . rintro ⟨_, ⟨rfl, rfl⟩, rfl, rfl⟩
          exact ⟨⟨rfl, rfl⟩, rfl⟩
        . rintro ⟨⟨rfl, rfl⟩, rfl⟩
          exact ⟨[], ⟨rfl, rfl⟩, rfl, rfl⟩)
  apply (steps.of_result_eq result_parseFile).congr
  intro t os rest
  constructor
  . rintro ⟨_, _, ⟨start, skips, chain, _⟩, ⟨rfl, rfl⟩, rfl⟩
    exact ⟨⟨start, skips, chain⟩, rfl⟩
  . rintro ⟨⟨start, skips, chain⟩, rfl⟩
    have stops : ∀ o rest, ¬Outline.Written [] o rest := by
      intro o rest written
      exact absurd written.length_lt (Nat.not_lt_zero _)
    exact ⟨_, _, ⟨start, skips, chain, settled_nil, stops⟩, ⟨rfl, rfl⟩, rfl⟩

end Definition

end Interaction
