import Interaction.Proofs.Parsing.Layout

/-!
This module contains readers as relations between a text, what is read from its front, and the text
after it. What a reader finds is seen through a view, which may forget the places in the text.
-/

namespace Interaction

namespace Parser

variable {α β γ δ : Type} {p q : Parser α} {f : α → Parser γ} {a : α}
variable {view : α → β} {view' : γ → δ} {R R' : List Char → β → List Char → Prop}
variable {S : β → List Char → δ → List Char → Prop} {c c' : Cursor} {t rest : List Char}

/-- Whether a reader finds what a relation allows, and nothing else. -/
def Reads (p : Parser α) (view : α → β) (R : List Char → β → List Char → Prop) : Prop :=
  ∀ c b rest, (∃ a c', p.result c = some (a, c') ∧ view a = b ∧ c'.rest = rest) ↔ R c.rest b rest

theorem Reads.found (h : Reads p view R) (found : p.result c = some (a, c')) :
    R c.rest (view a) c'.rest :=
  (h c _ _).1 ⟨a, c', found, rfl, rfl⟩

theorem Reads.exists_result (h : Reads p view R) {b : β} (allowed : R c.rest b rest) :
    ∃ a c', p.result c = some (a, c') ∧ view a = b ∧ c'.rest = rest :=
  (h c b rest).2 allowed

theorem Reads.result_eq_none (h : Reads p view R) (refused : ∀ b rest, ¬R c.rest b rest) :
    p.result c = none := by
  match found : p.result c with
  | none => rfl
  | some (a, c') => exact absurd (h.found found) (refused _ _)

theorem Reads.refused (h : Reads p view R) (failed : p.result c = none) (b : β)
    (rest : List Char) : ¬R c.rest b rest := by
  intro allowed
  obtain ⟨a, c', found, _⟩ := h.exists_result allowed
  rw [failed] at found
  cases found

theorem Reads.congr (h : Reads p view R) (iff : ∀ t b rest, R t b rest ↔ R' t b rest) :
    Reads p view R' := by
  intro c b rest
  rw [h c b rest]
  exact iff _ _ _

theorem Reads.of_result_eq (h : Reads q view R) (eq : ∀ c, p.result c = q.result c) :
    Reads p view R := by
  intro c b rest
  rw [eq c]
  exact h c b rest

theorem Reads.expecting (h : Reads p view R) (x : Expectation) :
    Reads (expecting x p) view R :=
  h.of_result_eq fun _ => result_expecting

theorem reads_pure (view : α → β) (a : α) (b : β) (h : view a = b) :
    Reads (pure a) view fun t b' rest => b' = b ∧ rest = t := by
  intro c b' rest
  constructor
  . rintro ⟨a', c', found, rfl, rfl⟩
    cases found
    exact ⟨h, rfl⟩
  . rintro ⟨rfl, rfl⟩
    exact ⟨a, c, rfl, h, rfl⟩

theorem Reads.bind (h : Reads p view R) (h' : ∀ a, Reads (f a) view' (S (view a))) :
    Reads (p >>= f) view' fun t b rest => ∃ x mid, R t x mid ∧ S x mid b rest := by
  intro c b rest
  simp only [result_bind_eq_some_iff]
  constructor
  . rintro ⟨d, c'', ⟨a, c', first, last⟩, rfl, rfl⟩
    exact ⟨view a, c'.rest, h.found first, (h' a).found last⟩
  . rintro ⟨x, mid, first, last⟩
    obtain ⟨a, c', found, rfl, rfl⟩ := h.exists_result first
    obtain ⟨d, c'', found', rest⟩ := (h' a).exists_result last
    exact ⟨d, c'', ⟨a, c', found, found'⟩, rest⟩

theorem Reads.andThen {R : List Char → α → List Char → Prop}
    {S : α → List Char → δ → List Char → Prop} (h : Reads p id R)
    (h' : ∀ a, Reads (f a) view' (S a)) :
    Reads (p >>= f) view' fun t b rest => ∃ x mid, R t x mid ∧ S x mid b rest :=
  h.bind h'

theorem Reads.skip {R : List Char → Unit → List Char → Prop}
    {S : List Char → δ → List Char → Prop} (h : Reads p (fun _ => ()) R)
    (h' : ∀ a, Reads (f a) view' S) :
    Reads (p >>= f) view' fun t b rest => ∃ mid, R t () mid ∧ S mid b rest := by
  apply (h.bind (S := fun _ => S) h').congr
  intro t b rest
  constructor
  . rintro ⟨_, mid, found⟩
    exact ⟨mid, found⟩
  . rintro ⟨mid, found⟩
    exact ⟨(), mid, found⟩

theorem Reads.orElse (h : Reads p view R) (h' : Reads q view R') :
    Reads (p <|> q) view fun t b rest =>
      R t b rest ∨ (∀ b' rest', ¬R t b' rest') ∧ R' t b rest := by
  intro c b rest
  simp only [result_orElse, Option.or_eq_some_iff]
  constructor
  . rintro ⟨a, c', found | ⟨failed, found⟩, rfl, rfl⟩
    . exact .inl (h.found found)
    . exact .inr ⟨h.refused failed, h'.found found⟩
  . rintro (allowed | ⟨refused, allowed⟩)
    . obtain ⟨a, c', found, rest⟩ := h.exists_result allowed
      exact ⟨a, c', .inl found, rest⟩
    . obtain ⟨a, c', found, rest⟩ := h'.exists_result allowed
      exact ⟨a, c', .inr ⟨h.result_eq_none refused, found⟩, rest⟩

theorem Reads.orElse_of_disjoint (h : Reads p view R) (h' : Reads q view R')
    (disjoint : ∀ t b rest b' rest', R t b rest → ¬R' t b' rest') :
    Reads (p <|> q) view fun t b rest => R t b rest ∨ R' t b rest := by
  apply (h.orElse h').congr
  intro t b rest
  constructor
  . rintro (first | ⟨_, second⟩)
    . exact .inl first
    . exact .inr second
  . rintro (first | second)
    . exact .inl first
    . exact .inr ⟨fun b' rest' first => disjoint _ _ _ _ _ first second, second⟩

theorem reads_offset : Reads offset (fun _ => ()) fun t _ rest => rest = t := by
  intro c u rest
  constructor
  . rintro ⟨n, c', found, _, rfl⟩
    cases found
    rfl
  . rintro rfl
    exact ⟨_, _, rfl, rfl, rfl⟩

theorem Reads.skipOffset {f : Nat → Parser γ} {S : List Char → δ → List Char → Prop}
    (h : ∀ n, Reads (f n) view' S) : Reads (do let n ← offset; f n) view' S := by
  apply (reads_offset.skip h).congr
  intro t b rest
  simp only [exists_eq_left]

theorem reads_literal (s : String) :
    Reads (literal s) (fun _ => ()) fun t _ rest => t = s.toList ++ rest := by
  intro c u rest
  constructor
  . rintro ⟨_, c', found, _, rfl⟩
    exact rest_of_literal found
  . intro eq
    obtain ⟨c', found, rest⟩ := result_literal_of eq
    exact ⟨_, c', found, rfl, rest⟩

theorem reads_endOfText :
    Reads endOfText (fun _ => ()) fun t _ rest => t = [] ∧ rest = [] := by
  intro c u rest
  constructor
  . rintro ⟨_, c', found, _, rfl⟩
    rw [result_endOfText] at found
    split at found
    . next ended =>
      cases found
      exact ⟨ended, ended⟩
    . cases found
  . rintro ⟨ended, rfl⟩
    refine ⟨(), c, ?_, rfl, ended⟩
    rw [result_endOfText, if_pos ended]

theorem reads_notBefore :
    Reads (notBefore isNameChar) (fun _ => ()) fun t _ rest => NameEnds t ∧ rest = t := by
  intro c u rest
  have result_eq : (notBefore isNameChar).result c =
      if c.rest.head?.any isNameChar then none else some ((), c) := rfl
  have ends_iff : NameEnds c.rest ↔ ¬c.rest.head?.any isNameChar := by
    unfold NameEnds
    cases c.rest.head? <;> simp
  simp only [result_eq, ends_iff]
  constructor
  . rintro ⟨_, c', found, _, rfl⟩
    split at found
    . cases found
    . next ends =>
      cases found
      exact ⟨ends, rfl⟩
  . rintro ⟨ends, rfl⟩
    exact ⟨(), c, if_neg ends, trivial, rfl⟩

theorem reads_layout :
    Reads layout (fun _ => ()) fun t _ rest => Skips t rest ∧ Settled rest := by
  intro c u rest
  constructor
  . rintro ⟨_, c', found, _, rfl⟩
    exact skips_of_layout found
  . rintro ⟨skips, settled⟩
    obtain ⟨c', found, rest⟩ := result_layout_of skips settled
    exact ⟨_, c', found, rfl, rest⟩

theorem Reads.afterLayout (h : Reads p view R) (starts : ∀ t b rest, R t b rest → Settled t) :
    Reads (do layout; p) view fun t b rest => ∃ mid, Skips t mid ∧ R mid b rest := by
  apply (reads_layout.skip fun _ => h).congr
  intro t b rest
  constructor
  . rintro ⟨mid, ⟨skips, _⟩, found⟩
    exact ⟨mid, skips, found⟩
  . rintro ⟨mid, skips, found⟩
    exact ⟨mid, ⟨skips, starts mid b rest found⟩, found⟩

theorem Reads.skipTo (s : String) (settled : ∀ rest, Settled (s.toList ++ rest))
    (h : Reads p view R) :
    Reads (do layout; literal s; p) view fun t b rest =>
      ∃ mid, Skips t (s.toList ++ mid) ∧ R mid b rest := by
  have word := (reads_literal s).skip fun _ => h
  apply (word.afterLayout _).congr
  . intro t b rest
    constructor
    . rintro ⟨_, skips, mid, rfl, found⟩
      exact ⟨mid, skips, found⟩
    . rintro ⟨mid, skips, found⟩
      exact ⟨_, skips, mid, rfl, found⟩
  . rintro t b rest ⟨mid, rfl, _⟩
    exact settled mid

theorem Reads.next {R : List Char → α → List Char → Prop}
    {S : α → List Char → δ → List Char → Prop} (h : Reads p id R)
    (starts : ∀ t a rest, R t a rest → Settled t) (h' : ∀ a, Reads (f a) view' (S a)) :
    Reads (do layout; let a ← p; f a) view' fun t b rest =>
      ∃ start x mid, Skips t start ∧ R start x mid ∧ S x mid b rest := by
  apply ((h.andThen h').afterLayout _).congr
  . intro t b rest
    constructor
    . rintro ⟨start, skips, x, mid, found⟩
      exact ⟨start, x, mid, skips, found⟩
    . rintro ⟨start, x, mid, skips, found⟩
      exact ⟨start, skips, x, mid, found⟩
  . rintro t b rest ⟨x, mid, found, _⟩
    exact starts t x mid found

theorem reads_name :
    Reads name id fun t s rest => IsName s ∧ t = s.toList ++ rest ∧ NameEnds rest := by
  intro c s rest
  constructor
  . rintro ⟨_, c', found, rfl, rfl⟩
    obtain ⟨isName, eq⟩ := rest_of_name found
    refine ⟨isName, eq, ?_⟩
    unfold name at found
    rw [result_expecting, result_takeWhile1] at found
    split at found
    . cases found
    . cases found
      intro x head
      rw [rest_forward_takeWhile] at head
      have := List.head?_dropWhile_not isNameChar c.rest
      rw [head] at this
      simpa using this
  . rintro ⟨isName, eq, ends⟩
    obtain ⟨c', found, rest⟩ := result_name_of isName eq ends
    exact ⟨s, c', found, rfl, rest⟩

theorem exists_name_of_not_nameEnds (h : ¬NameEnds t) :
    ∃ s rest, IsName s ∧ t = s.toList ++ rest ∧ NameEnds rest := by
  match found : name.result (.ofText t) with
  | some (s, c') => exact ⟨s, c'.rest, reads_name.found found⟩
  | none =>
    unfold name at found
    rw [result_expecting, result_takeWhile1] at found
    split at found
    . next empty =>
      refine absurd ?_ h
      intro x head
      cases t with
      | nil => cases head
      | cons y t =>
        cases head
        simpa [Cursor.ofText, List.takeWhile_cons] using empty
    . cases found

theorem reads_takeWhile1 : Reads (takeWhile1 isNameChar) id fun t s rest =>
    IsName s ∧ t = s.toList ++ rest ∧ NameEnds rest := by
  apply reads_name.of_result_eq
  intro c
  exact result_expecting.symm

theorem Reads.many (h : Reads p view R)
    (moves : ∀ t b rest, R t b rest → rest.length < t.length) :
    Reads (manyOf p) (List.map view) fun t bs rest =>
      Chain R t bs rest ∧ ∀ b rest', ¬R rest b rest' := by
  intro c bs rest
  constructor
  . rintro ⟨as, c', found, rfl, rfl⟩
    -- each finding moves on, so that the reader is tried again after it
    induction n : c.left using Nat.strongRecOn generalizing c as with
    | _ n ih =>
      match first : p.result c with
      | none =>
        rw [result_many_of_none first] at found
        cases found
        exact ⟨.nil _, h.refused first⟩
      | some (a, c₁) =>
        have less : c₁.left < c.left := Cursor.left_lt_iff.2 (moves _ _ _ (h.found first))
        obtain ⟨as', c'', others⟩ := exists_result_many (p := p) c₁
        rw [result_many_of first less others] at found
        cases found
        obtain ⟨chain, stops⟩ := ih c₁.left (n ▸ less) c₁ as' others rfl
        exact ⟨.cons (h.found first) chain, stops⟩
  . rintro ⟨chain, stops⟩
    generalize start : c.rest = t at chain
    induction chain generalizing c with
    | nil =>
      subst start
      exact ⟨[], c, result_many_of_none (h.result_eq_none stops), rfl, rfl⟩
    | cons step _ ih =>
      subst start
      obtain ⟨a, c₁, first, rfl, rfl⟩ := h.exists_result step
      obtain ⟨as, c₂, others, rfl, rest⟩ := ih c₁ stops rfl
      have less : c₁.left < c.left := Cursor.left_lt_iff.2 (moves _ _ _ step)
      exact ⟨a :: as, c₂, result_many_of first less others, rfl, rest⟩

section Spaced

variable {b : β} {bs : List β} {mid : List Char}

def WithLayout (R : List Char → β → List Char → Prop) (t : List Char) (b : β)
    (rest : List Char) : Prop :=
  ∃ mid, R t b mid ∧ Skips mid rest

theorem WithLayout.length_lt (h : WithLayout R t b rest)
    (moves : ∀ t b rest, R t b rest → rest.length < t.length) : rest.length < t.length := by
  obtain ⟨mid, found, skips⟩ := h
  exact Nat.lt_of_le_of_lt skips.suffix.length_le (moves t b mid found)

def AfterLayout (R : List Char → β → List Char → Prop) (t : List Char) (b : β)
    (rest : List Char) : Prop :=
  ∃ mid, (Skips t mid ∧ Settled mid) ∧ R mid b rest

def spaced (p : Parser α) : Parser (List α) := do
  layout
  let as ← repeated p
  layout
  pure as

theorem chain_withLayout (h : Chain (AfterLayout R) t bs mid) (skips : Skips mid rest) :
    ∃ start, Skips t start ∧ Chain (WithLayout R) start bs rest := by
  induction h with
  | nil t => exact ⟨rest, skips, .nil rest⟩
  | cons step _ ih =>
    obtain ⟨start, ⟨before, _⟩, found⟩ := step
    obtain ⟨next, between, chain⟩ := ih skips
    exact ⟨start, before, .cons ⟨_, found, between⟩ chain⟩

theorem chain_afterLayout (starts : ∀ t b rest, R t b rest → Settled t)
    (h : Chain (WithLayout R) mid bs rest) (skips : Skips t mid) :
    ∃ stop, Chain (AfterLayout R) t bs stop ∧ Skips stop rest := by
  induction h generalizing t with
  | nil mid => exact ⟨t, .nil t, skips⟩
  | cons step _ ih =>
    obtain ⟨next, found, between⟩ := step
    obtain ⟨stop, chain, after⟩ := ih between
    exact ⟨stop, .cons ⟨_, ⟨skips, starts _ _ _ found⟩, found⟩ chain, after⟩

theorem settled_of_chain (starts : ∀ t b rest, R t b rest → Settled t)
    (h : Chain (WithLayout R) t bs rest) (settled : Settled rest) : Settled t := by
  cases h with
  | nil => exact settled
  | cons step _ =>
    obtain ⟨_, found, _⟩ := step
    exact starts _ _ _ found

theorem result_spaced (moves : ∀ c a c', p.result c = some (a, c') → c'.left < c.left) :
    (spaced p).result c =
      (do layout; let as ← manyOf (do layout; p); layout; pure as : Parser (List α)).result c := by
  obtain ⟨c₁, before, _, settled⟩ := result_layout c
  unfold spaced
  rw [result_bind_of before, result_bind_of before, result_bind, result_bind,
    result_repeated_of_settled moves settled]

theorem Reads.spaced (h : Reads p view R) (starts : ∀ t b rest, R t b rest → Settled t)
    (moves : ∀ t b rest, R t b rest → rest.length < t.length) :
    Reads (spaced p) (List.map view) fun t bs rest =>
      ∃ start, Skips t start ∧ Chain (WithLayout R) start bs rest ∧ Settled rest ∧
        ∀ b rest', ¬R rest b rest' := by
  have movesCursor : ∀ c a c', p.result c = some (a, c') → c'.left < c.left := by
    intro c a c' found
    exact Cursor.left_lt_iff.2 (moves _ _ _ (h.found found))
  have after : Reads (do Parser.layout; p) view (AfterLayout R) :=
    reads_layout.skip fun _ => h
  have movesAfter : ∀ t b rest, AfterLayout R t b rest → rest.length < t.length := by
    rintro t b rest ⟨mid, ⟨skips, _⟩, found⟩
    exact Nat.lt_of_lt_of_le (moves _ _ _ found) skips.suffix.length_le
  have steps := reads_layout.skip fun _ => (after.many movesAfter).bind
    (S := fun bs t bs' rest => ∃ mid, (Skips t mid ∧ Settled mid) ∧ bs' = bs ∧ rest = mid)
    fun as => reads_layout.skip fun _ => reads_pure _ _ _ rfl
  apply (steps.of_result_eq fun c => result_spaced movesCursor).congr
  intro t bs rest
  constructor
  . rintro ⟨start, ⟨before, _⟩, _, stop, ⟨chain, stops⟩, _, ⟨skips, settled⟩, rfl, rfl⟩
    obtain ⟨start', before', chain'⟩ := chain_withLayout chain skips
    refine ⟨start', before.trans before', chain', settled, ?_⟩
    intro b rest' found
    exact stops b rest' ⟨_, ⟨skips, settled⟩, found⟩
  . rintro ⟨start, before, chain, settled', stops⟩
    have settled := settled_of_chain starts chain settled'
    obtain ⟨stop, chain', skips⟩ := chain_afterLayout starts chain (.done start)
    refine ⟨start, ⟨before, settled⟩, bs, stop, ⟨chain', ?_⟩, rest, ⟨skips, settled'⟩, rfl, rfl⟩
    -- only one place comes after the layout, and nothing is read there
    rintro b rest' ⟨mid, ⟨skips', settled''⟩, found⟩
    rw [skips.unique settled' skips' settled''] at stops
    exact stops b rest' found

end Spaced

end Parser

end Interaction
