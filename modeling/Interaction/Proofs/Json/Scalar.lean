import Interaction.Proofs.Json.Finding
import Interaction.Proofs.Parsing.Result

/-!
This module contains the proof that strings and integers are read from their texts, wherever these
stand in a JSON text.
-/

namespace Interaction

namespace Json

variable {α : Type} {c : Char} {n : Nat} {t rest : List Char}

inductive Escaping (c : Char) : List Char → Prop where
  | short (x : Char) (eq : Reader.shortEscape? x = some c) (ne : x ≠ 'u') : Escaping c ['\\', x]
  | control (lt : c.toNat < 0x20) : Escaping c ('\\' :: 'u' :: '0' :: '0' :: controlDigits c.toNat)
  | plain (quote : c ≠ '"') (backslash : c ≠ '\\') (printable : ¬c.toNat < 0x20) : Escaping c [c]

theorem escaping_escapeChar (c : Char) : Escaping c (escapeChar c) := by
  have eq_of_toNat {n : Nat} (eq : c.toNat = n) : c = Char.ofNat n := by
    rw [← eq, Char.ofNat_toNat]
  unfold escapeChar
  split
  . next eq => exact .short '"' (congrArg some eq.symm) (by decide)
  split
  . next eq => exact .short '\\' (congrArg some eq.symm) (by decide)
  split
  . next eq => exact .short 'n' (congrArg some eq.symm) (by decide)
  split
  . next eq => exact .short 'r' (congrArg some eq.symm) (by decide)
  split
  . next eq => exact .short 't' (congrArg some eq.symm) (by decide)
  split
  . next eq => exact .short 'b' (congrArg some (eq_of_toNat eq).symm) (by decide)
  split
  . next eq => exact .short 'f' (congrArg some (eq_of_toNat eq).symm) (by decide)
  split
  . next control => exact .control control
  . next quote backslash _ _ _ _ _ printable => exact .plain quote backslash printable

theorem Escaping.ne_nil (h : Escaping c t) : t ≠ [] := by
  cases h <;> simp

theorem mapM_controlDigits (h : n < 0x20) :
    ('0' :: '0' :: controlDigits n).mapM Reader.hexValue? = some [0, 0, n / 16, n % 16] := by
  have all : ∀ n < 0x20,
      ('0' :: '0' :: controlDigits n).mapM Reader.hexValue? = some [0, 0, n / 16, n % 16] := by
    decide
  exact all n h

theorem byteSize_controlDigits (h : n < 0x20) :
    Text.byteSize ('0' :: '0' :: controlDigits n) = 4 := by
  have all : ∀ n < 0x20, Text.byteSize ('0' :: '0' :: controlDigits n) = 4 := by
    decide
  exact all n h

namespace Reader

theorem finds_hex4 (h : n < 0x20) (t : List Char) :
    Finds hex4 ('0' :: '0' :: (controlDigits n ++ t)) n t := by
  intro c eq
  refine ⟨c.forward 4, ?_, by rw [Cursor.rest_forward, eq]; rfl⟩
  have next : c.rest.take 4 = '0' :: '0' :: controlDigits n := by
    rw [eq]
    rfl
  have value : ((0 * 16 + 0) * 16 + n / 16) * 16 + n % 16 = n := by omega
  unfold hex4
  simp only [next, byteSize_controlDigits h, mapM_controlDigits h, value]
  rfl

theorem finds_unicodeEscape (h : c.toNat < 0x20) (t : List Char) :
    Finds unicodeEscape ('0' :: '0' :: (controlDigits c.toNat ++ t)) c t := by
  have trailing : isTrailingSurrogate c.toNat = false := by
    simp [isTrailingSurrogate]
    omega
  have leading : isLeadingSurrogate c.toNat = false := by
    simp [isLeadingSurrogate]
    omega
  unfold unicodeEscape
  apply (finds_hex4 h t).bind
  simp only [trailing, leading, Char.ofNat_toNat]
  exact finds_pure c t

theorem finds_escape_of_short {x : Char} (short : shortEscape? x = some c) (ne : x ≠ 'u')
    (t : List Char) : Finds escape (x :: t) c t := by
  unfold escape
  apply (finds_peek _).bind
  simp only [List.head?_cons, short]
  exact (finds_pure c t).advance

theorem finds_stringItem (c : Char) (t : List Char) :
    Finds stringItem (escapeChar c ++ t) (some c) t := by
  have escaping := escaping_escapeChar c
  generalize escapeChar c = text at escaping
  unfold stringItem
  apply (finds_peek _).bind
  cases escaping with
  | short x eq ne => exact ((finds_escape_of_short eq ne t).map some).advance
  | control lt =>
    apply Finds.advance
    apply Finds.map _ some
    exact (finds_peek _).bind (finds_unicodeEscape lt t).advance
  | plain quote backslash printable =>
    simp only [List.cons_append, List.nil_append, List.head?_cons, if_neg printable]
    exact (finds_pure _ t).advance

theorem collected_stringItem (text : List Char) (first : Bool) (rest : List Char) :
    Collected (fun _ => stringItem) first (text.flatMap escapeChar ++ '"' :: rest) text rest := by
  induction text generalizing first with
  | nil =>
    apply Collected.stop
    unfold stringItem
    exact (finds_peek _).bind (finds_pure none rest).advance
  | cons c text ih =>
    rw [List.flatMap_cons, List.append_assoc]
    apply Collected.item (finds_stringItem c _) _ (ih false)
    have ne := (escaping_escapeChar c).ne_nil
    simp [List.length_pos_iff.2 ne]

theorem finds_stringRest (text : String) (rest : List Char) :
    Finds stringRest (text.toList.flatMap escapeChar ++ '"' :: rest) text rest := by
  unfold stringRest
  apply (collected_stringItem text.toList true rest).finds.bind
  rw [String.ofList_toList]
  exact finds_pure text rest

theorem recovers_string (text : String) : Recovers string (stringText text) text := by
  intro rest _
  unfold string stringText
  rw [List.cons_append, List.append_assoc]
  apply (finds_token _ _ rfl).bind
  exact (finds_stringRest text rest).advance

theorem recovers_value_string (levels : Nat) (text : String) :
    Recovers (value levels) (stringText text) (.string text) := by
  intro rest _
  unfold value stringText
  rw [List.cons_append, List.append_assoc]
  apply (finds_token _ _ rfl).bind
  exact ((finds_stringRest text rest).map Json.string).advance

theorem recovers_value_null (levels : Nat) :
    Recovers (value levels) ['n', 'u', 'l', 'l'] .null := by
  intro rest _
  unfold value
  apply (finds_token _ _ rfl).bind
  apply Finds.advance
  exact (finds_letters ['u', 'l', 'l'] rest).bind (finds_pure _ rest)

theorem recovers_value_bool (levels : Nat) (b : Bool) :
    Recovers (value levels) (chars (.bool b)) (.bool b) := by
  intro rest _
  unfold value
  cases b with
  | true =>
    apply (finds_token _ _ rfl).bind
    apply Finds.advance
    exact (finds_letters ['r', 'u', 'e'] rest).bind (finds_pure _ rest)
  | false =>
    apply (finds_token _ _ rfl).bind
    apply Finds.advance
    exact (finds_letters ['a', 'l', 's', 'e'] rest).bind (finds_pure _ rest)

theorem le_ofDigitChars (digits : List Char) (value : Nat) :
    value ≤ Nat.ofDigitChars 10 digits value := by
  induction digits generalizing value with
  | nil => simp
  | cons d digits ih =>
    rw [Nat.ofDigitChars_cons]
    apply Nat.le_trans _ (ih _)
    omega

theorem absorb_eq {limit value : Nat} {digits : List Char}
    (le : Nat.ofDigitChars 10 digits value ≤ limit) :
    absorb limit value digits = (Nat.ofDigitChars 10 digits value, []) := by
  induction digits generalizing value with
  | nil => simp [absorb]
  | cons d digits ih =>
    rw [Nat.ofDigitChars_cons] at le ⊢
    have small := Nat.le_trans (le_ofDigitChars digits _) le
    unfold absorb digitValue
    simp only
    rw [if_neg (Nat.not_lt.2 small), ih le]

theorem absorb_toDigits (le : n ≤ significandLimit) :
    absorb significandLimit 0 (Nat.toDigits 10 n) = (n, []) := by
  rw [absorb_eq, Nat.ofDigitChars_ten_toDigits]
  rw [Nat.ofDigitChars_ten_toDigits]
  exact le

theorem head?_toDigits_ne_zero (pos : 0 < n) : (Nat.toDigits 10 n).head? ≠ some '0' := by
  induction n using Nat.strongRecOn with
  | _ n ih =>
    rw [Nat.toDigits_eq_if (by decide)]
    split
    . next small =>
      have digits : ∀ n < 10, 0 < n → Nat.digitChar n ≠ '0' := by decide
      simpa using digits n small pos
    . next large =>
      have higher := ih (n / 10) (by omega) (by omega)
      rw [List.head?_append]
      cases eq : (Nat.toDigits 10 (n / 10)).head? with
      | none => simp at eq
      | some d =>
        rw [eq] at higher
        exact higher

theorem Delimited.not_isDigit (h : Delimited rest) (x : Char) (head : rest.head? = some x) :
    x.isDigit = false := by
  rcases h with rfl | ⟨y, rest, rfl, rfl | rfl | rfl⟩
  . cases head
  all_goals
    cases head
    decide

theorem isDigit_of_mem (mem : c ∈ Nat.toDigits 10 n) : c.isDigit = true :=
  Nat.isDigit_of_mem_toDigits (by decide) (by decide) mem

theorem exists_toDigits_eq_cons (n : Nat) :
    ∃ d ds, Nat.toDigits 10 n = d :: ds ∧ d.isDigit = true := by
  obtain ⟨d, ds, eq⟩ := List.exists_cons_of_ne_nil (Nat.toDigits_ne_nil (b := 10) (n := n))
  exact ⟨d, ds, eq, isDigit_of_mem (eq ▸ List.mem_cons_self)⟩

theorem finds_digits {d : Char} {ds : List Char} (eq : Nat.toDigits 10 n = d :: ds)
    (delimited : Delimited rest) :
    Finds (if d = '0' then do advance; pure ['0'] else takeWhile Char.isDigit)
      (Nat.toDigits 10 n ++ rest) (Nat.toDigits 10 n) rest := by
  split
  . next zero =>
    have none : n = 0 := by
      apply Nat.eq_zero_of_not_pos
      intro pos
      apply head?_toDigits_ne_zero pos
      rw [eq, zero]
      rfl
    subst none
    exact (finds_pure ['0'] rest).advance
  . exact finds_takeWhile (fun _ => isDigit_of_mem) delimited.not_isDigit

theorem finds_number {negative : Bool} {a : Number} (le : n ≤ significandLimit)
    (delimited : Delimited rest) (whole : wholeNumber negative n = pure a) :
    Finds (number negative) (Nat.toDigits 10 n ++ rest) a rest := by
  obtain ⟨d, ds, eq, digit⟩ := exists_toDigits_eq_cons n
  have head : (Nat.toDigits 10 n ++ rest).head? = some d := by
    rw [eq]
    rfl
  unfold number
  apply (finds_peek _).bind
  simp only [head, digit]
  apply (finds_digits eq delimited).bind
  simp only [absorb_toDigits le]
  apply (finds_peek rest).bind
  rcases delimited with rfl | ⟨y, rest, rfl, rfl | rfl | rfl⟩
  all_goals
    simp only [whole]
    exact finds_pure a _

theorem wholeNumber_of_le (pos : 0 < n) (le : n ≤ Nat.pow 2 63) :
    wholeNumber true n = pure (.integer (-n)) := by
  unfold wholeNumber
  rw [if_neg (by decide), if_neg (Nat.ne_of_gt pos), if_pos le]

theorem ne_of_isDigit (digit : c.isDigit = true) :
    c ≠ 'n' ∧ c ≠ 't' ∧ c ≠ 'f' ∧ c ≠ '-' ∧ c ≠ '"' ∧ c ≠ '[' ∧ c ≠ '\x7b' := by
  refine ⟨?_, ?_, ?_, ?_, ?_, ?_, ?_⟩ <;> (rintro rfl; revert digit; decide)

theorem isSpace_of_isDigit (digit : c.isDigit = true) : isSpace c = false := by
  unfold isSpace
  simp only [Bool.or_eq_false_iff, beq_eq_false_iff_ne]
  refine ⟨⟨⟨?_, ?_⟩, ?_⟩, ?_⟩ <;> (rintro rfl; revert digit; decide)

theorem toList_toString_ofNat (n : Nat) : (toString (Int.ofNat n)).toList = Nat.toDigits 10 n := by
  simp [toString, Int.repr]

theorem toList_toString_negSucc (n : Nat) :
    (toString (Int.negSucc n)).toList = '-' :: Nat.toDigits 10 (n + 1) := by
  simp [toString, Int.repr]

inductive Signed (v : Int) (rest : List Char) : List Char → Prop where
  | digits {d : Char} {t : List Char} (digit : d.isDigit = true)
    (found : Finds (number false) (d :: t) (.integer v) rest) : Signed v rest (d :: t)
  | negative {t : List Char} (found : Finds (number true) t (.integer v) rest) :
    Signed v rest ('-' :: t)

theorem signed_toString {v : Int} (low : Int64.minValue.toInt ≤ v) (high : v < UInt64.size)
    (delimited : Delimited rest) : Signed v rest ((toString v).toList ++ rest) := by
  cases v with
  | ofNat n =>
    have le : n ≤ significandLimit := Nat.le_sub_one_of_lt (Int.ofNat_lt.1 high)
    obtain ⟨d, ds, eq, digit⟩ := exists_toDigits_eq_cons n
    have whole : wholeNumber false n = pure (.integer n) := rfl
    have found := finds_number le delimited whole
    rw [toList_toString_ofNat, eq]
    rw [eq] at found
    exact .digits digit found
  | negSucc n =>
    have le : n + 1 ≤ Nat.pow 2 63 := by
      have least : -(Nat.pow 2 63 : Nat) ≤ Int.negSucc n := low
      omega
    have whole := wholeNumber_of_le (Nat.succ_pos n) le
    rw [toList_toString_negSucc]
    exact .negative (finds_number (Nat.le_trans le (by decide)) delimited whole)

theorem recovers_value_integer (levels : Nat) {v : Int} (low : Int64.minValue.toInt ≤ v)
    (high : v < UInt64.size) :
    Recovers (value levels) (toString v).toList (.number (.integer v)) := by
  intro rest delimited
  have signed := signed_toString low high delimited
  generalize (toString v).toList ++ rest = text at signed
  unfold value
  cases signed with
  | digits digit found =>
    -- the alternatives for other characters are dropped by these hypotheses
    obtain ⟨_, _, _, _, _, _, _⟩ := ne_of_isDigit digit
    apply (finds_token _ _ (isSpace_of_isDigit digit)).bind
    simp only [digit, if_true]
    exact found.map Json.number
  | negative found =>
    apply (finds_token _ _ rfl).bind
    exact (found.map Json.number).advance

theorem recovers_int64 {v : Int}
    (inRange : Int64.minValue.toInt ≤ v ∧ v ≤ Int64.maxValue.toInt) :
    Recovers int64 (toString v).toList v := by
  intro rest delimited
  have signed := signed_toString inRange.1 (Int.lt_of_le_of_lt inRange.2 (by decide)) delimited
  generalize (toString v).toList ++ rest = text at signed
  unfold int64
  apply Finds.bind
  . cases signed with
    | digits digit found =>
      obtain ⟨_, _, _, _, _⟩ := ne_of_isDigit digit
      apply (finds_token _ _ (isSpace_of_isDigit digit)).bind
      simp only [digit, if_true]
      exact found
    | negative found =>
      apply (finds_token _ _ rfl).bind
      exact found.advance
  . simp only [inRange, and_self, if_true]
    exact finds_pure v rest

end Reader

end Json

end Interaction
