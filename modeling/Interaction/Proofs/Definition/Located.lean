import Interaction.Proofs.Definition.Reading
import Interaction.Proofs.Language.Located

/-!
This module contains where the parts of definitions stand in a file: definitions lie one after the
other, so do the parts of a definition, and the events of a language lie inside its part.
-/

namespace Interaction

open Interaction.Parser

/-- Whether spans lie one after the other between two places, and none of them is empty. -/
def InOrder (start : Nat) : List (Nat × Nat) → Nat → Prop
  | [], stop => start ≤ stop
  | (first, last) :: spans, stop => start ≤ first ∧ first < last ∧ InOrder last spans stop

namespace InOrder

variable {start start' stop stop' : Nat} {spans : List (Nat × Nat)} {span : Nat × Nat}

theorem le (h : InOrder start spans stop) : start ≤ stop := by
  induction spans generalizing start with
  | nil => exact h
  | cons span spans ih =>
    obtain ⟨first, less, rest⟩ := h
    have := ih rest
    omega

theorem mono (h : InOrder start spans stop) (before : start' ≤ start) (after : stop ≤ stop') :
    InOrder start' spans stop' := by
  induction spans generalizing start start' with
  | nil => exact Nat.le_trans before (Nat.le_trans h after)
  | cons span spans ih =>
    obtain ⟨first, less, rest⟩ := h
    exact ⟨Nat.le_trans before first, less, ih rest (Nat.le_refl _)⟩

theorem mem (h : InOrder start spans stop) (mem : span ∈ spans) :
    start ≤ span.1 ∧ span.1 < span.2 ∧ span.2 ≤ stop := by
  induction spans generalizing start with
  | nil => cases mem
  | cons head spans ih =>
    obtain ⟨first, less, rest⟩ := h
    rcases List.mem_cons.1 mem with rfl | mem
    . exact ⟨first, less, rest.le⟩
    . have := ih rest mem
      omega

theorem pairwise (h : InOrder start spans stop) : spans.Pairwise fun a b => a.2 ≤ b.1 := by
  induction spans generalizing start with
  | nil => exact .nil
  | cons head spans ih =>
    obtain ⟨_, _, rest⟩ := h
    exact .cons (fun _ mem => (rest.mem mem).1) (ih rest)

theorem nodup (h : InOrder start spans stop) : spans.Nodup := by
  apply h.pairwise.imp_of_mem
  rintro span _ mem _ before rfl
  exact Nat.not_lt.2 before (h.mem mem).2.1

theorem of_append {later : List (Nat × Nat)} (h : InOrder start (spans ++ later) stop) :
    InOrder start spans stop := by
  induction spans generalizing start with
  | nil => exact h.le
  | cons span spans ih =>
    obtain ⟨first, less, rest⟩ := h
    exact ⟨first, less, ih rest⟩

theorem notMem_of_inside {inner : Nat × Nat} (h : InOrder start spans stop) (mem : span ∈ spans)
    (behind : span.1 < inner.1) (less : inner.1 < inner.2) (within : inner.2 ≤ span.2) :
    inner ∉ spans := by
  intro mem'
  induction spans generalizing start with
  | nil => cases mem
  | cons head spans ih =>
    obtain ⟨_, nonempty, rest⟩ := h
    rcases List.mem_cons.1 mem with rfl | later
    . rcases List.mem_cons.1 mem' with rfl | later'
      . exact Nat.lt_irrefl _ behind
      . have := rest.mem later'
        omega
    . rcases List.mem_cons.1 mem' with rfl | later'
      . have := rest.mem later
        omega
      . exact ih rest later later'

end InOrder

def Reference.span (r : Reference) : Nat × Nat := (r.start, r.stop)

def DefinitionPart.span : DefinitionPart → Nat × Nat
  | .description _ start stop => (start, stop)
  | .channel c => (c.start, c.stop)
  | .language _ start stop => (start, stop)

def Definition.span (d : Definition) : Nat × Nat := (d.start, d.stop)

structure LanguageText.LiesIn (text : LanguageText) (start stop : Nat) : Prop where
  events_eq : text.references.map (·.event) = text.language.events
  inOrder : InOrder (start + 1) (text.references.map (·.span)) stop

structure Definition.Orderly (d : Definition) : Prop where
  parts : InOrder (d.start + 1) (d.parts.map (·.span)) d.stop
  languages : ∀ text start stop, .language text start stop ∈ d.parts → text.LiesIn start stop

theorem Placed.inOrder {c c' : Cursor} {rs : List Reference} (h : Placed c rs c') :
    InOrder c.offset (rs.map (·.span)) c'.offset := by
  induction h with
  | nil reaches => exact reaches.offset_le
  | @cons _ _ _ _ e _ reaches passes _ ih =>
    have some : e.label.toList ≠ [] := by
      rw [Event.toList_label]
      simp
    exact ⟨reaches.offset_le, passes.offset_lt some, ih⟩

namespace Parser

variable {α β : Type} {p q : Parser α} {f : α → Parser β} {c c' : Cursor} {as : List α}
variable {P : α → Cursor → Prop} {Q : β → Cursor → Prop}

def Yields (p : Parser α) (P : α → Cursor → Prop) : Prop :=
  ∀ c a c', p.result c = some (a, c') → P a c'

theorem Yields.bind (h : ∀ a, Yields (f a) Q) : Yields (p >>= f) Q := by
  intro c b c' found
  obtain ⟨a, c₁, _, last⟩ := result_bind_eq_some_iff.1 found
  exact h a c₁ b c' last

theorem yields_stop {g : Nat → α} {start : Nat} {span : α → Nat × Nat}
    (h : ∀ n, span (g n) = (start, n)) :
    Yields (do let stop ← offset; pure (g stop)) fun a c' => span a = (start, c'.offset) := by
  intro c a c' found
  cases found
  exact h c.offset

theorem span_eq_of_yields {f : Nat → Parser α} {span : α → Nat × Nat} {x : Expectation}
    (h : ∀ start, Yields (f start) fun a c' => span a = (start, c'.offset)) {a : α}
    (found : (expecting x (do let start ← offset; f start)).result c = some (a, c')) :
    span a = (c.offset, c'.offset) := by
  rw [result_expecting, result_bind_of result_offset] at found
  exact h c.offset c a c' found

theorem inOrder_of_repeated {span : α → Nat × Nat}
    (h : ∀ c a c', p.result c = some (a, c') →
      span a = (c.offset, c'.offset) ∧ c.offset < c'.offset)
    (found : (repeated p).result c = some (as, c')) :
    InOrder c.offset (as.map span) c'.offset := by
  have chain := chain_of_repeated found
  clear found
  induction chain with
  | nil c => exact Nat.le_refl _
  | cons step _ ih =>
    obtain ⟨c₁, reaches, found⟩ := step
    obtain ⟨eq, less⟩ := h _ _ _ found
    rw [List.map_cons, eq]
    exact ⟨reaches.offset_le, less, ih⟩

end Parser

namespace Definition

variable {c c' : Cursor} {p : DefinitionPart} {d : Definition} {ds : List Definition}

theorem advances_parseQuotedText : Advances parseQuotedText := by
  apply Advances.expecting
  intro c s c' found
  cases found
  exact ⟨_, c.passes_forward _⟩

theorem advances_parseQuoted : Advances parseQuoted :=
  ((advances_literal _).bind fun _ => advances_parseQuotedText.bind fun _ =>
    (advances_literal _).bind fun _ => advances_pure).expecting _

theorem advances_parseDescription : Advances parseDescription :=
  (advances_offset.bind fun _ => (advances_literal _).bind fun _ => advances_layout.bind fun _ =>
    advances_parseQuoted.bind fun _ => advances_layout.bind fun _ =>
    (advances_literal _).bind fun _ => advances_offset.bind fun _ => advances_pure).expecting _

theorem advances_parseDirection : Advances parseDirection :=
  ((((advances_literal _).bind fun _ => advances_pure).orElse
    ((advances_literal _).bind fun _ => advances_pure)).bind fun _ =>
    (advances_notBefore _).bind fun _ => advances_pure).expecting _

theorem advances_parsePayloadType : Advances parsePayloadType := by
  have dotted : Advances (do literal "."; let name ← takeWhile1 isNameChar; pure ("." ++ name)) :=
    (advances_literal _).bind fun _ => (advances_takeWhile1 _).bind fun _ => advances_pure
  exact ((advances_takeWhile1 _).bind fun _ => dotted.manyOf.bind fun _ =>
    advances_pure).expecting _

theorem advances_parseChannel : Advances parseChannel :=
  (advances_offset.bind fun _ => advances_parseDirection.bind fun _ =>
    advances_layout.bind fun _ => advances_name.bind fun _ => advances_layout.bind fun _ =>
    (advances_literal _).bind fun _ => advances_layout.bind fun _ =>
    advances_parsePayloadType.bind fun _ => advances_layout.bind fun _ =>
    (advances_literal _).bind fun _ => advances_offset.bind fun _ => advances_pure).expecting _

theorem advances_parseChoice : Advances Language.parseChoice :=
  fun c t c' found => (Language.locates_parseChoice c t c' found).placed.reaches

theorem advances_parseLanguage : Advances parseLanguage :=
  (advances_offset.bind fun _ => (advances_literal _).bind fun _ => advances_layout.bind fun _ =>
    (advances_literal _).bind fun _ => advances_layout.bind fun _ =>
    advances_parseChoice.bind fun _ => advances_layout.bind fun _ =>
    (advances_literal _).bind fun _ => advances_offset.bind fun _ => advances_pure).expecting _

theorem advances_parsePart : Advances parsePart :=
  advances_parseDescription.orElse (advances_parseChannel.orElse advances_parseLanguage)

theorem span_parseDescription (found : parseDescription.result c = some (p, c')) :
    p.span = (c.offset, c'.offset) := by
  refine span_eq_of_yields (fun start => ?_) found
  exact .bind fun _ => .bind fun _ => .bind fun _ => .bind fun _ => .bind fun _ =>
    yields_stop fun _ => rfl

theorem span_parseChannel (found : parseChannel.result c = some (p, c')) :
    p.span = (c.offset, c'.offset) := by
  refine span_eq_of_yields (fun start => ?_) found
  exact .bind fun _ => .bind fun _ => .bind fun _ => .bind fun _ => .bind fun _ =>
    .bind fun _ => .bind fun _ => .bind fun _ => .bind fun _ => yields_stop fun _ => rfl

theorem span_parseLanguage (found : parseLanguage.result c = some (p, c')) :
    p.span = (c.offset, c'.offset) := by
  refine span_eq_of_yields (fun start => ?_) found
  exact .bind fun _ => .bind fun _ => .bind fun _ => .bind fun _ => .bind fun _ =>
    .bind fun _ => .bind fun _ => yields_stop fun _ => rfl

theorem span_parsePart (found : parsePart.result c = some (p, c')) :
    p.span = (c.offset, c'.offset) ∧ c.offset < c'.offset := by
  have less : c'.left < c.left :=
    Cursor.left_lt_iff.2 (reads_parsePart.found found).length_lt
  refine ⟨?_, (advances_parsePart c p c' found).offset_lt less⟩
  unfold parsePart at found
  rw [result_orElse, Option.or_eq_some_iff, result_orElse, Option.or_eq_some_iff] at found
  rcases found with found | ⟨_, found | ⟨_, found⟩⟩
  . exact span_parseDescription found
  . exact span_parseChannel found
  . exact span_parseLanguage found

variable {text : LanguageText} {start stop : Nat}

/-- Whether what lies between two places is all that a language block has in its braces. -/
structure InBraces (start : Nat) (c c' : Cursor) (stop : Nat) : Prop where
  opening : ∃ (c₁ : Cursor) (a b : List Char), c₁.Reaches c ∧ c₁.offset = start ∧
    c₁.rest = "language".toList ++ a ∧ Skips a ('\x7b' :: b) ∧ Skips b c.rest
  closing : ∃ c₂ : Cursor, c'.Reaches c₂ ∧ c₂.offset = stop ∧ Skips c'.rest ('\x7d' :: c₂.rest)

theorem InBraces.start_lt (h : InBraces start c c' stop) : start < c.offset := by
  obtain ⟨c₁, a, b, reaches, rfl, keyword, skips, skips'⟩ := h.opening
  apply reaches.offset_lt
  have le := skips.suffix.length_le
  have le' := skips'.suffix.length_le
  rw [Cursor.left_lt_iff, keyword, List.length_append]
  rw [List.length_cons] at le
  omega

theorem InBraces.lt_stop (h : InBraces start c c' stop) : c'.offset < stop := by
  obtain ⟨c₂, reaches, rfl, skips⟩ := h.closing
  apply reaches.offset_lt
  have le := skips.suffix.length_le
  rw [List.length_cons] at le
  rw [Cursor.left_lt_iff]
  omega

theorem exists_choice_of_parseLanguage
    (found : parseLanguage.result c = some (.language text start stop, c')) :
    ∃ c₁ c₂, c.Reaches c₁ ∧ Language.parseChoice.result c₁ = some (text, c₂) ∧
      InBraces start c₁ c₂ stop := by
  unfold parseLanguage at found
  simp only [result_expecting, result_bind_eq_some_iff] at found
  obtain ⟨_, _, first, _, c₁, keyword, _, c₂, skip₁, _, c₃, opening, _, c₄, skip₂, _, c₅, read,
    _, c₆, skip₃, _, c₇, closing, _, _, last, made⟩ := found
  cases first
  cases last
  cases made
  have before : c.Reaches c₄ :=
    ((advances_literal _ _ _ _ keyword).trans (advances_layout _ _ _ skip₁)).trans
      ((advances_literal _ _ _ _ opening).trans (advances_layout _ _ _ skip₂))
  have after : c₅.Reaches c' :=
    (advances_layout _ _ _ skip₃).trans (advances_literal _ _ _ _ closing)
  refine ⟨c₄, c₅, before, read, ?_, ?_⟩
  . have skips := (skips_of_layout skip₁).1
    rw [rest_of_literal opening] at skips
    exact ⟨c, _, _, before, rfl, rest_of_literal keyword, skips, (skips_of_layout skip₂).1⟩
  . have skips := (skips_of_layout skip₃).1
    rw [rest_of_literal closing] at skips
    exact ⟨c', after, rfl, skips⟩

theorem parseLanguage_of_parsePart
    (found : parsePart.result c = some (.language text start stop, c')) :
    parseLanguage.result c = some (.language text start stop, c') := by
  unfold parsePart at found
  rw [result_orElse, Option.or_eq_some_iff, result_orElse, Option.or_eq_some_iff] at found
  -- no other reader finds a language
  rcases found with found | ⟨_, found | ⟨_, found⟩⟩
  . obtain ⟨_, _, other⟩ := reads_parseDescription.found found
    cases other
  . obtain ⟨_, _, _, other⟩ := reads_parseChannel.found found
    cases other
  . exact found

theorem liesIn_parsePart (found : parsePart.result c = some (.language text start stop, c')) :
    text.LiesIn start stop := by
  obtain ⟨c₁, c₂, _, read, inBraces⟩ :=
    exists_choice_of_parseLanguage (parseLanguage_of_parsePart found)
  have located := Language.locates_parseChoice _ _ _ read
  exact ⟨located.events_eq, located.placed.inOrder.mono inBraces.start_lt
    (Nat.le_of_lt inBraces.lt_stop)⟩

theorem advances_parseKeyword : Advances parseKeyword :=
  ((advances_literal _).bind fun _ => advances_notBefore _).expecting _

theorem advances_parse : Advances parse :=
  (advances_offset.bind fun _ => advances_parseKeyword.bind fun _ => advances_layout.bind fun _ =>
    advances_name.bind fun _ => advances_layout.bind fun _ => (advances_literal _).bind fun _ =>
    advances_layout.bind fun _ => advances_parsePart.repeated.bind fun _ =>
    advances_layout.bind fun _ => (advances_literal _).bind fun _ =>
    advances_offset.bind fun _ => advances_pure).expecting _

theorem span_parse (found : parse.result c = some (d, c')) :
    d.span = (c.offset, c'.offset) ∧ c.offset < c'.offset := by
  have less : c'.left < c.left := Cursor.left_lt_iff.2 (reads_parse.found found).length_lt
  refine ⟨?_, (advances_parse c d c' found).offset_lt less⟩
  refine span_eq_of_yields (fun start => ?_) found
  exact .bind fun _ => .bind fun _ => .bind fun _ => .bind fun _ => .bind fun _ =>
    .bind fun _ => .bind fun _ => .bind fun _ => .bind fun _ => yields_stop fun _ => rfl

theorem exists_parts_of_parse (found : parse.result c = some (d, c')) :
    ∃ c₁ c₂, c.Reaches c₁ ∧ c.offset < c₁.offset ∧
      (repeated parsePart).result c₁ = some (d.parts, c₂) ∧ c₂.Reaches c' := by
  unfold parse at found
  simp only [result_expecting, result_bind_eq_some_iff] at found
  obtain ⟨_, _, first, _, c₁, keyword, _, c₂, skip₁, name, c₃, named, _, c₄, skip₂, _, c₅,
    opening, _, c₆, skip₃, parts, c₇, read, _, c₈, skip₄, _, c₉, closing, _, _, last, made⟩ :=
    found
  cases first
  cases last
  cases made
  have word : c.Reaches c₁ := advances_parseKeyword _ _ _ keyword
  have less : c.offset < c₁.offset := by
    obtain ⟨text, _⟩ := reads_parseKeyword.found keyword
    exact word.offset_lt (Cursor.left_lt_of_append text (by decide))
  have onward : c₁.Reaches c₆ :=
    (((advances_layout _ _ _ skip₁).trans (advances_name _ _ _ named)).trans
      ((advances_layout _ _ _ skip₂).trans (advances_literal _ _ _ _ opening))).trans
      (advances_layout _ _ _ skip₃)
  have after := (advances_layout _ _ _ skip₄).trans (advances_literal _ _ _ _ closing)
  exact ⟨c₆, c₇, word.trans onward, Nat.lt_of_lt_of_le less onward.offset_le, read, after⟩

theorem exists_parsePart_of_parse (found : parse.result c = some (d, c')) (mem : p ∈ d.parts) :
    ∃ c₁ c₂, c.Reaches c₁ ∧ parsePart.result c₁ = some (p, c₂) := by
  obtain ⟨c₁, _, reaches, _, read, _⟩ := exists_parts_of_parse found
  obtain ⟨c₂, c₃, onward, part⟩ := exists_reached_of_mem_repeated advances_parsePart read mem
  exact ⟨c₂, c₃, reaches.trans onward, part⟩

theorem orderly_parse (found : parse.result c = some (d, c')) : d.Orderly := by
  constructor
  . obtain ⟨c₁, c₂, _, less, read, after⟩ := exists_parts_of_parse found
    obtain ⟨start, stop⟩ := Prod.mk.inj (span_parse found).1
    rw [start, stop]
    exact (inOrder_of_repeated (fun _ _ _ => span_parsePart) read).mono less after.offset_le
  . intro text start stop mem
    obtain ⟨_, _, _, part⟩ := exists_parsePart_of_parse found mem
    exact liesIn_parsePart part

theorem exists_definitions_of_parseFile (found : parseFile.result c = some (ds, c')) :
    ∃ c₁ c₂, c.Reaches c₁ ∧ (repeated parse).result c₁ = some (ds, c₂) := by
  unfold parseFile at found
  simp only [result_expecting, result_bind_eq_some_iff] at found
  obtain ⟨_, c₁, skip, _, c₂, read, _, c₃, _, _, c₄, _, last⟩ := found
  cases last
  exact ⟨c₁, c₂, advances_layout _ _ _ skip, read⟩

theorem orderly_parseFile (found : parseFile.result c = some (ds, c')) :
    (∃ start stop, InOrder start (ds.map (·.span)) stop) ∧ ∀ d ∈ ds, d.Orderly := by
  obtain ⟨c₁, c₂, _, read⟩ := exists_definitions_of_parseFile found
  constructor
  . exact ⟨_, _, inOrder_of_repeated (fun _ _ _ => span_parse) read⟩
  . intro d mem
    obtain ⟨_, _, _, parsed⟩ := exists_reached_of_mem_repeated advances_parse read mem
    exact orderly_parse parsed

end Definition

end Interaction
