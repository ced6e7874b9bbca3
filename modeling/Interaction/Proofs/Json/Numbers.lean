import Interaction.Proofs.Json.Strings

/-!
This module contains the proof that the reader of numbers finds what their texts mean, and that a
number that is of no interest may be of any size.
-/

namespace Interaction

namespace Json

def Apart (t : List Char) : Prop :=
  ∀ x, t.head? = some x → x.isDigit = false ∧ x ≠ '.' ∧ x ≠ 'e' ∧ x ≠ 'E'

theorem Digits.exists_head (digits : Digits) :
    ∃ x t, digits.chars = x :: t ∧ x.isDigit = true := by
  obtain ⟨x, t, eq⟩ := List.exists_cons_of_ne_nil digits.ne_nil
  exact ⟨x, t, eq, digits.isDigit x (eq ▸ List.mem_cons_self)⟩

theorem Literal.exists_head (l : Literal) (rest : List Char) :
    ∃ x t, l.unsigned ++ rest = x :: t ∧ x.isDigit = true := by
  obtain ⟨x, t, eq, digit⟩ := l.whole.exists_head
  exact ⟨x, _, by rw [unsigned, eq]; rfl, digit⟩

namespace Reader

variable {β : Type} {c c' : Cursor} {n : Number} {negative : Bool} {significand : Nat}
variable {exponent : Int} {rest : List Char} {x : Char}

theorem digits_of_takeWhile {taken : List Char} (head : c.rest.head? = some x)
    (digit : x.isDigit = true) (h : takeWhile Char.isDigit c = .ok (taken, c')) :
    ∃ digits : Digits, digits.chars = taken ∧ c.rest = taken ++ c'.rest := by
  obtain ⟨eq, all, stop⟩ := rest_of_takeWhile h
  have ne : taken ≠ [] := by
    rintro rfl
    rw [eq] at head
    rw [stop x head] at digit
    cases digit
  exact ⟨⟨taken, ne, all⟩, rfl, eq⟩

theorem whole_of_digits {taken : List Char} (head : c.rest.head? = some x)
    (digit : x.isDigit = true)
    (h : (if x = '0' then do advance; pure ['0'] else takeWhile Char.isDigit :
      Reader (List Char)) c = .ok (taken, c')) :
    ∃ whole : Digits, whole.chars = taken ∧ (taken.head? = some '0' → taken = ['0']) ∧
      c.rest = taken ++ c'.rest := by
  split at h
  . next zero =>
    obtain ⟨c₁, eq, found⟩ := rest_of_advance head h
    obtain ⟨rfl, rfl⟩ := pure_eq_ok.1 found
    refine ⟨⟨['0'], by simp, by simp⟩, rfl, fun _ => rfl, ?_⟩
    rw [eq, zero]
    rfl
  . next notZero =>
    obtain ⟨whole, eq, rest⟩ := digits_of_takeWhile head digit h
    refine ⟨whole, eq, ?_, rest⟩
    intro zero
    obtain ⟨t, rfl⟩ := List.head?_eq_some_iff.1 zero
    rw [rest] at head
    cases head
    exact absurd rfl notZero

theorem whole_of_first {first : Option Char} {taken : List Char} (head : c.rest.head? = first)
    (ne : taken ≠ [])
    (h : (if first = some '0' then do advance; pure ['0'] else takeWhile Char.isDigit :
      Reader (List Char)) c = .ok (taken, c')) :
    ∃ whole : Digits, whole.chars = taken ∧ (taken.head? = some '0' → taken = ['0']) ∧
      c.rest = taken ++ c'.rest := by
  cases first with
  | none =>
    obtain ⟨eq, _⟩ := rest_of_takeWhile h
    rw [List.head?_eq_none_iff.1 head] at eq
    exact absurd (List.append_eq_nil_iff.1 eq.symm).1 ne
  | some x =>
    simp only [Option.some.injEq] at h
    have digit : x.isDigit = true := by
      split at h
      . next zero =>
        rw [zero]
        decide
      . obtain ⟨eq, all, _⟩ := rest_of_takeWhile h
        obtain ⟨y, t, rfl⟩ := List.exists_cons_of_ne_nil ne
        rw [eq] at head
        cases head
        exact all x List.mem_cons_self
    exact whole_of_digits head digit h

theorem sign_of_passed {sign : Option Char} {f : Reader β} {b : β} (head : c.rest.head? = sign)
    (h : (if sign = some '+' ∨ sign = some '-' then do advance; f else f) c = .ok (b, c')) :
    ∃ text c₁, (text = [] ∨ text = ['+'] ∨ text = ['-']) ∧ (text = ['-'] ↔ sign = some '-') ∧
      c.rest = text ++ c₁.rest ∧ f c₁ = .ok (b, c') := by
  split at h
  . next signed =>
    rcases signed with rfl | rfl
    . obtain ⟨c₁, eq, found⟩ := rest_of_advance head h
      exact ⟨['+'], c₁, by simp, by simp, eq, found⟩
    . obtain ⟨c₁, eq, found⟩ := rest_of_advance head h
      exact ⟨['-'], c₁, by simp, by simp, eq, found⟩
  . next unsigned =>
    exact ⟨[], c, by simp, by simpa using fun eq => unsigned (.inr eq), rfl, h⟩

theorem scaled_of_decimal (h : decimal negative significand exponent c = .ok (n, c')) :
    Literal.scaled? negative significand exponent none = some n ∧ c = c' := by
  unfold decimal at h
  cases found : Binary64.ofDecimal? negative significand exponent with
  | none =>
    simp only [found] at h
    cases h
  | some x =>
    simp only [found] at h
    obtain ⟨rfl, rfl⟩ := pure_eq_ok.1 h
    unfold Literal.scaled?
    simp [found]

theorem scaled_of_exponentPart {marker : Char} (isMarker : marker = 'e' ∨ marker = 'E')
    (h : exponentPart negative significand exponent c = .ok (n, c')) :
    ∃ e : Exponent, e.marker = marker ∧ c.rest = e.sign ++ e.digits.chars ++ c'.rest ∧
      Literal.scaled? negative significand exponent (some e) = some n := by
  obtain ⟨sign, head, found⟩ := head_of_peek h
  obtain ⟨text, c₁, isSign, minus, eq, found⟩ := sign_of_passed head found
  obtain ⟨y, head', found⟩ := head_of_peek found
  split at found
  . cases found
  next y =>
  split at found
  . cases found
  next digit =>
  obtain ⟨taken, c₂, passed, found⟩ := bind_eq_ok.1 found
  obtain ⟨digits, rfl, eq'⟩ := digits_of_takeWhile head' (by simpa using digit) passed
  refine ⟨⟨marker, text, digits, isMarker, isSign⟩, rfl, ?_⟩
  simp only at found
  split at found
  . next none =>
    obtain ⟨scaled, rfl⟩ := scaled_of_decimal found
    refine ⟨by rw [eq, eq', List.append_assoc], ?_⟩
    simp only [← minus] at scaled
    unfold Literal.scaled?
    simp only [List.isEmpty_iff.1 none, if_true]
    exact scaled
  next some =>
  split at found
  . cases found
  . next small =>
    obtain ⟨rfl, rfl⟩ := pure_eq_ok.1 found
    refine ⟨by rw [eq, eq', List.append_assoc], ?_⟩
    simp only [ne_eq, ← minus] at small
    unfold Literal.scaled?
    simp only [List.isEmpty_iff] at some
    simp only [some, small, if_false]

theorem scaled_of_marked {marker : Char} (isMarker : marker = 'e' ∨ marker = 'E')
    (head : c.rest.head? = some marker)
    (h : (do advance; exponentPart negative significand exponent) c = .ok (n, c')) :
    ∃ e : Exponent, c.rest = Literal.exponentText (some e) ++ c'.rest ∧
      Literal.scaled? negative significand exponent (some e) = some n := by
  obtain ⟨c₁, eq, found⟩ := rest_of_advance head h
  obtain ⟨e, rfl, eq', scaled⟩ := scaled_of_exponentPart isMarker found
  refine ⟨e, ?_, scaled⟩
  rw [eq, eq']
  rfl

theorem scaled_of_afterFraction
    (h : afterFraction negative significand exponent c = .ok (n, c')) :
    ∃ e, c.rest = Literal.exponentText e ++ c'.rest ∧
      Literal.scaled? negative significand exponent e = some n := by
  obtain ⟨x, head, found⟩ := head_of_peek h
  split at found
  . obtain ⟨e, eq, scaled⟩ := scaled_of_marked (.inl rfl) head found
    exact ⟨some e, eq, scaled⟩
  . obtain ⟨e, eq, scaled⟩ := scaled_of_marked (.inr rfl) head found
    exact ⟨some e, eq, scaled⟩
  . obtain ⟨scaled, rfl⟩ := scaled_of_decimal found
    exact ⟨none, rfl, scaled⟩

theorem scaled_of_fractionPart
    (h : fractionPart negative significand exponent c = .ok (n, c')) :
    ∃ (digits : Digits) (e : Option Exponent),
      c.rest = digits.chars ++ Literal.exponentText e ++ c'.rest ∧
        Literal.fractional? negative significand exponent digits e = some n := by
  obtain ⟨taken, c₁, passed, found⟩ := bind_eq_ok.1 h
  split at found
  . obtain ⟨y, _, found⟩ := head_of_peek found
    split at found <;> cases found
  . next some =>
    obtain ⟨eq, all, _⟩ := rest_of_takeWhile passed
    have ne : taken ≠ [] := by simpa using some
    obtain ⟨e, eq', scaled⟩ := scaled_of_afterFraction found
    refine ⟨⟨taken, ne, all⟩, e, ?_, scaled⟩
    rw [eq, eq', List.append_assoc]

theorem whole_of_wholeNumber (h : wholeNumber negative significand c = .ok (n, c')) :
    Literal.whole? negative significand = some n ∧ c = c' := by
  unfold wholeNumber at h
  unfold Literal.whole?
  cases negative with
  | false =>
    obtain ⟨rfl, rfl⟩ := pure_eq_ok.1 h
    exact ⟨rfl, rfl⟩
  | true =>
    simp only [Bool.not_true, Bool.false_eq_true, if_false, Bool.true_eq_false] at h ⊢
    split at h
    . next zero =>
      obtain ⟨rfl, rfl⟩ := pure_eq_ok.1 h
      exact ⟨if_pos zero, rfl⟩
    next notZero =>
    split at h
    . next small =>
      obtain ⟨rfl, rfl⟩ := pure_eq_ok.1 h
      exact ⟨by rw [if_neg notZero, if_pos small], rfl⟩
    . next large =>
      obtain ⟨scaled, rfl⟩ := scaled_of_decimal h
      exact ⟨by rw [if_neg notZero, if_neg large, scaled], rfl⟩

theorem whole_of_rest {dropped : List Char}
    (h : (if dropped.isEmpty then wholeNumber negative significand
      else decimal negative significand dropped.length) c = .ok (n, c')) :
    (if dropped = [] then Literal.whole? negative significand
      else Literal.scaled? negative significand dropped.length none) = some n ∧ c = c' := by
  split at h
  . next none =>
    rw [if_pos (List.isEmpty_iff.1 none)]
    exact whole_of_wholeNumber h
  . next some =>
    rw [if_neg fun none => some (List.isEmpty_iff.2 none)]
    exact scaled_of_decimal h

theorem literal_of_number (h : number negative c = .ok (n, c')) :
    ∃ l : Literal, l.negative = negative ∧ c.rest = l.unsigned ++ c'.rest ∧ l.number? = some n := by
  obtain ⟨x, head, found⟩ := head_of_peek h
  split at found
  . cases found
  split at found
  . cases found
  next digit =>
  obtain ⟨taken, c₁, passed, found⟩ := bind_eq_ok.1 found
  obtain ⟨whole, rfl, noZeros, eq⟩ := whole_of_digits head (by simpa using digit) passed
  obtain ⟨y, head', found⟩ := head_of_peek found
  split at found
  . obtain ⟨c₂, eq', found⟩ := rest_of_advance head' found
    obtain ⟨digits, e, eq'', value⟩ := scaled_of_fractionPart found
    refine ⟨⟨negative, whole, some digits, e, noZeros⟩, rfl, ?_, value⟩
    rw [eq, eq', eq'']
    simp [Literal.unsigned, Literal.fractionText]
  . obtain ⟨e, eq', value⟩ := scaled_of_marked (.inl rfl) head' found
    refine ⟨⟨negative, whole, none, some e, noZeros⟩, rfl, ?_, value⟩
    rw [eq, eq', ← List.append_assoc]
    rfl
  . obtain ⟨e, eq', value⟩ := scaled_of_marked (.inr rfl) head' found
    refine ⟨⟨negative, whole, none, some e, noZeros⟩, rfl, ?_, value⟩
    rw [eq, eq', ← List.append_assoc]
    rfl
  . split at found
    . cases found
    obtain ⟨value, rfl⟩ := whole_of_rest found
    refine ⟨⟨negative, whole, none, none, noZeros⟩, rfl, ?_, value⟩
    simp [eq, Literal.unsigned, Literal.fractionText, Literal.exponentText]
  . obtain ⟨value, rfl⟩ := whole_of_rest found
    refine ⟨⟨negative, whole, none, none, noZeros⟩, rfl, ?_, value⟩
    simp [eq, Literal.unsigned, Literal.fractionText, Literal.exponentText]

theorem finds_decimal (value : Literal.scaled? negative significand exponent none = some n)
    (rest : List Char) : Finds (decimal negative significand exponent) rest n rest := by
  obtain ⟨x, found, rfl⟩ := Option.map_eq_some_iff.1 value
  unfold decimal
  simp only [found]
  exact finds_pure _ rest

theorem finds_digits_of (digits : Digits) (apart : Apart rest) :
    Finds (takeWhile Char.isDigit) (digits.chars ++ rest) digits.chars rest :=
  finds_takeWhile digits.isDigit fun x head => (apart x head).1

theorem stop_exponentText (e : Option Exponent) (apart : Apart rest) (x : Char)
    (head : (Literal.exponentText e ++ rest).head? = some x) : x.isDigit = false := by
  cases e with
  | none => exact (apart x head).1
  | some e =>
    cases head
    rcases e.isMarker with marker | marker
    . rw [marker]
      decide
    . rw [marker]
      decide

theorem finds_signed {sign t : List Char} {f : Option Char → Reader β} {b : β}
    (isSign : sign = [] ∨ sign = ['+'] ∨ sign = ['-']) (digit : x.isDigit = true)
    (found : ∀ s, (sign = ['-'] ↔ s = some '-') → Finds (f s) (x :: t) b rest) :
    Finds (do let s ← peek; if s = some '+' ∨ s = some '-' then do advance; f s else f s)
      (sign ++ x :: t) b rest := by
  rcases isSign with rfl | rfl | rfl
  . have ne : x ≠ '+' ∧ x ≠ '-' := by
      constructor <;> (rintro rfl; revert digit; decide)
    apply (finds_peek _).bind
    simp only [List.nil_append, List.head?_cons, Option.some.injEq, ne, or_self, if_false]
    exact found _ (by simpa using ne.2)
  . apply (finds_peek _).bind
    simp only [List.cons_append, List.head?_cons, true_or, if_true]
    exact (found _ (by simp)).advance
  . apply (finds_peek _).bind
    simp only [List.cons_append, List.head?_cons, or_true, if_true]
    exact (found _ (by simp)).advance

theorem finds_exponentPart (e : Exponent)
    (value : Literal.scaled? negative significand exponent (some e) = some n)
    (apart : Apart rest) :
    Finds (exponentPart negative significand exponent) (e.sign ++ (e.digits.chars ++ rest)) n
      rest := by
  obtain ⟨x, t, eq, digit⟩ := e.digits.exists_head
  have head : e.digits.chars ++ rest = x :: (t ++ rest) := by rw [eq]; rfl
  rw [head]
  refine finds_signed e.isSign digit fun s minus => ?_
  apply (finds_peek _).bind
  simp only [List.head?_cons, digit, Bool.not_true, Bool.false_eq_true, if_false]
  rw [← head]
  apply (finds_digits_of e.digits apart).bind
  unfold Literal.scaled? at value
  simp only at value ⊢
  split at value
  . next none =>
    rw [if_pos (List.isEmpty_iff.2 none)]
    simp only [minus] at value
    exact finds_decimal value rest
  next some =>
  rw [if_neg fun none => some (List.isEmpty_iff.1 none)]
  split at value
  . cases value
  . next small =>
    cases value
    simp only [ne_eq, minus] at small
    rw [if_neg small]
    exact finds_pure _ rest

theorem finds_afterFraction (e : Option Exponent)
    (value : Literal.scaled? negative significand exponent e = some n) (apart : Apart rest) :
    Finds (afterFraction negative significand exponent) (Literal.exponentText e ++ rest) n
      rest := by
  unfold afterFraction
  cases e with
  | none =>
    apply (finds_peek _).bind
    rw [Literal.exponentText, List.nil_append]
    have found := finds_decimal value rest
    split
    . next head => exact absurd rfl (apart _ head).2.2.1
    . next head => exact absurd rfl (apart _ head).2.2.2
    . exact found
  | some e =>
    have found := (finds_exponentPart e value apart).advance (x := e.marker)
    rw [← List.append_assoc] at found
    apply (finds_peek _).bind
    rw [Literal.exponentText, List.cons_append, List.head?_cons]
    rcases e.isMarker with marker | marker
    . rw [marker] at found ⊢
      exact found
    . rw [marker] at found ⊢
      exact found

theorem finds_fractionPart (digits : Digits) (e : Option Exponent)
    (value : Literal.fractional? negative significand exponent digits e = some n)
    (apart : Apart rest) :
    Finds (fractionPart negative significand exponent)
      (digits.chars ++ (Literal.exponentText e ++ rest)) n rest := by
  have some : digits.chars.isEmpty = false := by simpa using digits.ne_nil
  unfold fractionPart
  apply (finds_takeWhile digits.isDigit (stop_exponentText e apart)).bind
  simp only [some, Bool.false_eq_true, if_false]
  exact finds_afterFraction e value apart

theorem finds_wholeNumber (value : Literal.whole? negative significand = some n)
    (rest : List Char) : Finds (wholeNumber negative significand) rest n rest := by
  unfold Literal.whole? at value
  unfold wholeNumber
  cases negative with
  | false =>
    cases value
    exact finds_pure _ rest
  | true =>
    simp only [Bool.not_true, Bool.false_eq_true, if_false, Bool.true_eq_false] at value ⊢
    split at value
    . next zero =>
      cases value
      rw [if_pos zero]
      exact finds_pure _ rest
    next notZero =>
    rw [if_neg notZero]
    split at value
    . next small =>
      cases value
      rw [if_pos small]
      exact finds_pure _ rest
    . next large =>
      rw [if_neg large]
      exact finds_decimal value rest

theorem finds_whole_digits {digits : Digits} {t : List Char}
    (noZeros : digits.chars.head? = some '0' → digits.chars = ['0']) (eq : digits.chars = x :: t)
    (stop : ∀ y, rest.head? = some y → y.isDigit = false) :
    Finds (if x = '0' then do advance; pure ['0'] else takeWhile Char.isDigit)
      (digits.chars ++ rest) digits.chars rest := by
  split
  . next zero =>
    rw [noZeros (by rw [eq, zero]; rfl)]
    exact (finds_pure ['0'] rest).advance
  . exact finds_takeWhile digits.isDigit stop

theorem finds_whole {dropped : List Char}
    (value : (if dropped = [] then Literal.whole? negative significand
      else Literal.scaled? negative significand dropped.length none) = some n)
    (rest : List Char) :
    Finds (if dropped.isEmpty then wholeNumber negative significand
      else decimal negative significand dropped.length) rest n rest := by
  split at value
  . next none =>
    rw [if_pos (List.isEmpty_iff.2 none)]
    exact finds_wholeNumber value rest
  . next some =>
    rw [if_neg fun none => some (List.isEmpty_iff.1 none)]
    exact finds_decimal value rest

theorem stop_unsigned (l : Literal) (apart : Apart rest) (x : Char)
    (head : (Literal.fractionText l.fraction ++ (Literal.exponentText l.exponent ++ rest)).head? =
      some x) : x.isDigit = false := by
  cases fraction : l.fraction with
  | none =>
    rw [fraction] at head
    exact stop_exponentText l.exponent apart x head
  | some digits =>
    rw [fraction] at head
    cases head
    decide

theorem finds_number_of (l : Literal) (value : l.number? = some n) (apart : Apart rest) :
    Finds (number l.negative) (l.unsigned ++ rest) n rest := by
  obtain ⟨x, t, eq, digit⟩ := l.whole.exists_head
  have head : (l.unsigned ++ rest).head? = some x := by
    rw [Literal.unsigned, eq]
    rfl
  unfold number
  apply (finds_peek _).bind
  rw [head]
  simp only [digit, Bool.not_true, Bool.false_eq_true, if_false]
  rw [Literal.unsigned, List.append_assoc, List.append_assoc]
  apply (finds_whole_digits l.noZeros eq (stop_unsigned l apart)).bind
  unfold Literal.number? at value
  generalize absorb significandLimit 0 l.whole.chars = absorbed at value ⊢
  obtain ⟨significand, dropped⟩ := absorbed
  apply (finds_peek _).bind
  -- what comes next is a point, the marker of an exponent, or nothing of the number
  cases fraction : l.fraction with
  | some digits =>
    simp only [fraction] at value
    exact (finds_fractionPart digits l.exponent value apart).advance
  | none =>
    rw [Literal.fractionText, List.nil_append]
    cases exponent : l.exponent with
    | some e =>
      simp only [fraction, exponent] at value
      have found := (finds_exponentPart e value apart).advance (x := e.marker)
      rw [← List.append_assoc] at found
      rw [Literal.exponentText, List.cons_append, List.head?_cons]
      rcases e.isMarker with marker | marker
      . rw [marker] at found ⊢
        exact found
      . rw [marker] at found ⊢
        exact found
    | none =>
      simp only [fraction, exponent] at value
      rw [Literal.exponentText, List.nil_append]
      have found := finds_whole value rest
      split
      . next head => exact absurd rfl (apart _ head).2.1
      . next head => exact absurd rfl (apart _ head).2.2.1
      . next head => exact absurd rfl (apart _ head).2.2.2
      . next head =>
        rw [(apart _ head).1]
        exact found
      . exact found

theorem literal_of_ignoredExponent {marker : Char} (isMarker : marker = 'e' ∨ marker = 'E')
    {u : Unit} (head : c.rest.head? = some marker) (h : ignoredExponent c = .ok (u, c')) :
    ∃ e : Exponent, c.rest = Literal.exponentText (some e) ++ c'.rest := by
  obtain ⟨c₁, eq, found⟩ := rest_of_advance head h
  obtain ⟨sign, head', found⟩ := head_of_peek found
  obtain ⟨text, c₂, isSign, _, eq', found⟩ := sign_of_passed head' found
  obtain ⟨taken, c₃, passed, found⟩ := bind_eq_ok.1 found
  obtain ⟨eq'', all, _⟩ := rest_of_takeWhile passed
  split at found
  . cases found
  . next some =>
    obtain ⟨_, rfl⟩ := pure_eq_ok.1 found
    refine ⟨⟨marker, text, ⟨taken, by simpa using some, all⟩, isMarker, isSign⟩, ?_⟩
    rw [eq, eq', eq'']
    simp [Literal.exponentText]

theorem exponent_of_ignored {u : Unit}
    (h : (do
      let next ← peek
      if next = some 'e' ∨ next = some 'E' then ignoredExponent : Reader Unit) c = .ok (u, c')) :
    ∃ e, c.rest = Literal.exponentText e ++ c'.rest := by
  obtain ⟨x, head, found⟩ := head_of_peek h
  split at found
  . next isMarker =>
    obtain ⟨marker, rfl⟩ : ∃ marker, x = some marker := by
      rcases isMarker with rfl | rfl
      . exact ⟨_, rfl⟩
      . exact ⟨_, rfl⟩
    obtain ⟨e, eq⟩ := literal_of_ignoredExponent (by simpa using isMarker) head found
    exact ⟨some e, eq⟩
  . obtain ⟨_, rfl⟩ := pure_eq_ok.1 found
    exact ⟨none, rfl⟩

theorem literal_of_ignoredNumber {u : Unit} (negative : Bool) (h : ignoredNumber c = .ok (u, c')) :
    ∃ l : Literal, l.negative = negative ∧ c.rest = l.unsigned ++ c'.rest := by
  obtain ⟨first, head, found⟩ := head_of_peek h
  obtain ⟨taken, c₁, passed, found⟩ := bind_eq_ok.1 found
  split at found
  . cases found
  next some =>
  obtain ⟨whole, rfl, noZeros, eq⟩ := whole_of_first head (by simpa using some) passed
  obtain ⟨y, _, found⟩ := head_of_peek found
  split at found
  . cases found
  obtain ⟨z, head', found⟩ := head_of_peek found
  split at found
  . next point =>
    subst point
    obtain ⟨c₂, eq', found⟩ := rest_of_advance head' found
    obtain ⟨taken, c₃, passed, found⟩ := bind_eq_ok.1 found
    obtain ⟨eq'', all, _⟩ := rest_of_takeWhile passed
    split at found
    . cases found
    next some =>
    obtain ⟨e, same⟩ := exponent_of_ignored found
    refine ⟨⟨negative, whole, Option.some ⟨taken, by simpa using some, all⟩, e, noZeros⟩, rfl, ?_⟩
    rw [eq, eq', eq'', same]
    simp [Literal.unsigned, Literal.fractionText]
  . obtain ⟨e, eq'⟩ := exponent_of_ignored found
    refine ⟨⟨negative, whole, none, e, noZeros⟩, rfl, ?_⟩
    rw [eq, eq']
    simp [Literal.unsigned, Literal.fractionText]

theorem finds_ignoredExponent (e : Exponent) (apart : Apart rest) :
    Finds ignoredExponent (Literal.exponentText (some e) ++ rest) () rest := by
  obtain ⟨x, t, eq, digit⟩ := e.digits.exists_head
  have head : e.digits.chars ++ rest = x :: (t ++ rest) := by rw [eq]; rfl
  have some : e.digits.chars.isEmpty = false := by simpa using e.digits.ne_nil
  unfold ignoredExponent
  rw [Literal.exponentText, List.cons_append, List.append_assoc, head]
  apply Finds.advance
  refine finds_signed e.isSign digit fun s _ => ?_
  rw [← head]
  apply (finds_digits_of e.digits apart).bind
  simp only [some, Bool.false_eq_true, if_false]
  exact finds_pure () rest

theorem finds_exponent_ignored (e : Option Exponent) (apart : Apart rest) :
    Finds (do
      let next ← peek
      if next = some 'e' ∨ next = some 'E' then ignoredExponent : Reader Unit)
      (Literal.exponentText e ++ rest) () rest := by
  apply (finds_peek _).bind
  cases e with
  | none =>
    rw [Literal.exponentText, List.nil_append, if_neg]
    . exact finds_pure () rest
    . rintro (head | head)
      . exact (apart _ head).2.2.1 rfl
      . exact (apart _ head).2.2.2 rfl
  | some e =>
    rw [if_pos]
    . exact finds_ignoredExponent e apart
    . rw [Literal.exponentText, List.cons_append, List.head?_cons]
      exact e.isMarker.imp (congrArg some) (congrArg some)

theorem no_point_of_exponentText (e : Option Exponent) (apart : Apart rest) :
    (Literal.exponentText e ++ rest).head? ≠ some '.' := by
  intro head
  cases e with
  | none => exact (apart _ head).2.1 rfl
  | some e =>
    have marker : e.marker = '.' := Option.some.inj head
    rcases e.isMarker with eq | eq
    . rw [eq] at marker
      cases marker
    . rw [eq] at marker
      cases marker

theorem any_isDigit_eq_false (stop : ∀ y, rest.head? = some y → y.isDigit = false) :
    rest.head?.any Char.isDigit = false := by
  cases head : rest.head? with
  | none => rfl
  | some y => exact stop y head

theorem finds_ignoredNumber (l : Literal) (apart : Apart rest) :
    Finds ignoredNumber (l.unsigned ++ rest) () rest := by
  obtain ⟨x, t, eq, digit⟩ := l.whole.exists_head
  have head : (l.unsigned ++ rest).head? = some x := by
    rw [Literal.unsigned, eq]
    rfl
  have ne : l.whole.chars.isEmpty = false := by simpa using l.whole.ne_nil
  unfold ignoredNumber
  apply (finds_peek _).bind
  rw [head]
  simp only [Option.some.injEq]
  rw [Literal.unsigned, List.append_assoc, List.append_assoc]
  have stop := stop_unsigned l apart
  apply (finds_whole_digits l.noZeros eq stop).bind
  simp only [ne, Bool.false_eq_true, if_false]
  apply (finds_peek _).bind
  rw [any_isDigit_eq_false stop]
  simp only [Bool.false_eq_true, if_false]
  apply (finds_peek _).bind
  cases fraction : l.fraction with
  | none =>
    rw [Literal.fractionText, List.nil_append, if_neg (no_point_of_exponentText _ apart)]
    exact finds_exponent_ignored l.exponent apart
  | some digits =>
    have ne : digits.chars.isEmpty = false := by simpa using digits.ne_nil
    apply Finds.advance
    rw [List.append_eq]
    apply (finds_takeWhile digits.isDigit (stop_exponentText l.exponent apart)).bind
    simp only [ne, Bool.false_eq_true, if_false]
    exact finds_exponent_ignored l.exponent apart

end Reader

end Json

end Interaction
