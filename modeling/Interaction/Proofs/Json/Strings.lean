import Interaction.Proofs.Json.Inversion
import Interaction.Proofs.Json.Scalar

/-!
This module contains the proof that the reader of strings finds what their pieces stand for, and
that a string that is of no interest may have any pieces.
-/

namespace Interaction

theorem Text.length_le_byteSize (t : List Char) : t.length ≤ byteSize t := by
  induction t with
  | nil => exact Nat.le_refl 0
  | cons x t ih =>
    have := x.utf8Size_pos
    rw [List.length_cons, byteSize]
    omega

namespace Json

variable {pieces : List Piece} {chars : List Char} {n m : Nat} {x : Char}
variable {digits digits' rest : List Char}

theorem mapM_cons_eq_some {α β : Type} {f : α → Option β} {a : α} {as : List α} {bs : List β} :
    (a :: as).mapM f = some bs ↔ ∃ b others, f a = some b ∧ as.mapM f = some others ∧
      bs = b :: others := by
  rw [List.mapM_cons]
  simp only [bind, pure, Option.bind_eq_some_iff, Option.some.injEq]
  constructor
  . rintro ⟨b, eq, others, eq', rfl⟩
    exact ⟨b, others, eq, eq', rfl⟩
  . rintro ⟨b, others, eq, eq', rfl⟩
    exact ⟨b, eq, others, eq', rfl⟩

theorem length_of_mapM {α β : Type} {f : α → Option β} {as : List α} {bs : List β}
    (h : as.mapM f = some bs) : bs.length = as.length := by
  induction as generalizing bs with
  | nil =>
    cases h
    rfl
  | cons a as ih =>
    obtain ⟨b, others, _, eq, rfl⟩ := mapM_cons_eq_some.1 h
    rw [List.length_cons, List.length_cons, ih eq]

theorem exists_of_hexNumber? (h : hexNumber? digits = some n) :
    ∃ a b d e, digits.mapM Reader.hexValue? = some [a, b, d, e] ∧
      n = ((a * 16 + b) * 16 + d) * 16 + e := by
  unfold hexNumber? at h
  split at h
  . next a b d e values =>
    cases h
    exact ⟨a, b, d, e, values, rfl⟩
  . cases h

theorem length_of_hexNumber? (h : hexNumber? digits = some n) : digits.length = 4 := by
  obtain ⟨a, b, d, e, values, _⟩ := exists_of_hexNumber? h
  exact (length_of_mapM values).symm

namespace Piece

theorem text_ne_nil (p : Piece) : p.text ≠ [] := by
  cases p <;> exact List.cons_ne_nil _ _

theorem length_lt_text (p : Piece) (t : List Char) : t.length < (p.text ++ t).length := by
  have := List.length_pos_iff.2 p.text_ne_nil
  rw [List.length_append]
  omega

def StandFor (pieces : List Piece) (c : Char) : Prop :=
  pieces ≠ [] ∧ ∀ rest, chars? (pieces ++ rest) = (chars? rest).map (c :: ·)

theorem standFor_plain (ok) : StandFor [plain x ok] x := by
  refine ⟨List.cons_ne_nil _ _, fun rest => ?_⟩
  rw [List.singleton_append, chars?]

theorem standFor_short {letter : Char} (ok) : StandFor [short letter x ok] x := by
  refine ⟨List.cons_ne_nil _ _, fun rest => ?_⟩
  rw [List.singleton_append, chars?]

theorem standFor_code (ok : hexNumber? digits = some n)
    (notTrailing : Reader.isTrailingSurrogate n = false)
    (notLeading : Reader.isLeadingSurrogate n = false) :
    StandFor [code digits n ok] (Char.ofNat n) := by
  refine ⟨List.cons_ne_nil _ _, fun rest => ?_⟩
  rw [List.singleton_append, chars?.eq_def]
  simp [notTrailing, notLeading]

theorem standFor_codes (ok : hexNumber? digits = some n) (ok' : hexNumber? digits' = some m)
    (notTrailing : Reader.isTrailingSurrogate n = false)
    (leading : Reader.isLeadingSurrogate n = true)
    (trailing : Reader.isTrailingSurrogate m = true) :
    StandFor [code digits n ok, code digits' m ok'] (pair n m) := by
  refine ⟨List.cons_ne_nil _ _, fun rest => ?_⟩
  rw [List.cons_append, List.singleton_append, chars?.eq_def]
  simp [notTrailing, leading, trailing]

end Piece

open Json.Piece (StandFor)

namespace Reader

variable {c c' : Cursor}

theorem rest_of_hex4 (h : hex4 c = .ok (n, c')) :
    ∃ digits, hexNumber? digits = some n ∧ c.rest = digits ++ c'.rest := by
  unfold hex4 at h
  simp only at h
  split at h
  . cases h
  split at h
  . next a b d e values =>
    cases h
    refine ⟨c.rest.take 4, ?_, ?_⟩
    . unfold hexNumber?
      rw [values]
    . rw [Cursor.rest_forward, List.take_append_drop]
  . cases h

theorem finds_hex4_of (ok : hexNumber? digits = some n) (rest : List Char) :
    Finds hex4 (digits ++ rest) n rest := by
  have four := length_of_hexNumber? ok
  obtain ⟨a, b, d, e, values, rfl⟩ := exists_of_hexNumber? ok
  intro c eq
  refine ⟨c.forward 4, ?_, ?_⟩
  . have next : c.rest.take 4 = digits := by rw [eq, ← four, List.take_left]
    have size := Text.length_le_byteSize digits
    unfold hex4
    simp only [next, values]
    rw [if_neg (by omega)]
  . rw [Cursor.rest_forward, eq, ← four, List.drop_left]

theorem rest_of_afterSurrogate {u : Unit} (h : afterSurrogate x c = .ok (u, c')) :
    c.rest = x :: c'.rest := by
  obtain ⟨y, head, found⟩ := head_of_peek h
  split at found
  . cases found
  split at found
  . next same =>
    obtain ⟨t, eq⟩ := List.head?_eq_some_iff.1 head
    cases found
    rw [Cursor.rest_next eq, eq, same]
  . cases found

theorem finds_afterSurrogate (x : Char) (rest : List Char) :
    Finds (afterSurrogate x) (x :: rest) () rest := by
  unfold afterSurrogate
  apply (finds_peek _).bind
  simp only [List.head?_cons, if_true]
  exact finds_advance x rest

theorem standFor_of_unicodeEscape (h : unicodeEscape c = .ok (x, c')) :
    ∃ pieces, StandFor pieces x ∧ '\\' :: 'u' :: c.rest = pieces.flatMap Piece.text ++ c'.rest := by
  obtain ⟨n, c₁, read, found⟩ := bind_eq_ok.1 h
  obtain ⟨digits, ok, eq⟩ := rest_of_hex4 read
  split at found
  . cases found
  next notTrailing =>
  split at found
  . next leading =>
    obtain ⟨_, c₂, slash, found⟩ := bind_eq_ok.1 found
    obtain ⟨_, c₃, letter, found⟩ := bind_eq_ok.1 found
    obtain ⟨m, c₄, read', found⟩ := bind_eq_ok.1 found
    obtain ⟨digits', ok', eq'⟩ := rest_of_hex4 read'
    split at found
    . next trailing =>
      obtain ⟨rfl, rfl⟩ := pure_eq_ok.1 found
      refine ⟨_, Piece.standFor_codes ok ok' (by simpa using notTrailing) leading trailing, ?_⟩
      rw [eq, rest_of_afterSurrogate slash, rest_of_afterSurrogate letter, eq']
      simp [Piece.text]
    . cases found
  . next notLeading =>
    obtain ⟨rfl, rfl⟩ := pure_eq_ok.1 found
    refine ⟨_, Piece.standFor_code ok (by simpa using notTrailing) (by simpa using notLeading), ?_⟩
    rw [eq]
    simp [Piece.text]

theorem standFor_of_escape (h : escape c = .ok (x, c')) :
    ∃ pieces, StandFor pieces x ∧ '\\' :: c.rest = pieces.flatMap Piece.text ++ c'.rest := by
  obtain ⟨y, head, found⟩ := head_of_peek h
  split at found
  . cases found
  . obtain ⟨c₁, eq, found⟩ := rest_of_advance head found
    rw [eq]
    exact standFor_of_unicodeEscape found
  . next letter _ =>
    cases ok : shortEscape? letter with
    | none =>
      simp only [ok] at found
      cases found
    | some y =>
      simp only [ok] at found
      obtain ⟨c₁, eq, found⟩ := rest_of_advance head found
      obtain ⟨rfl, rfl⟩ := pure_eq_ok.1 found
      refine ⟨_, Piece.standFor_short ok, ?_⟩
      rw [eq]
      simp [Piece.text]

theorem standFor_of_stringItem (h : stringItem c = .ok (some x, c')) :
    ∃ pieces, StandFor pieces x ∧ c.rest = pieces.flatMap Piece.text ++ c'.rest := by
  obtain ⟨y, head, found⟩ := head_of_peek h
  split at found
  . cases found
  . obtain ⟨_, _, found⟩ := rest_of_advance head found
    cases found
  . obtain ⟨c₁, eq, found⟩ := rest_of_advance head found
    obtain ⟨_, escaped, same⟩ := map_eq_ok.1 found
    cases same
    rw [eq]
    exact standFor_of_escape escaped
  . next quote backslash =>
    split at found
    . cases found
    next printable =>
    obtain ⟨c₁, eq, found⟩ := rest_of_advance head found
    obtain ⟨same, rfl⟩ := pure_eq_ok.1 found
    cases same
    exact ⟨_, Piece.standFor_plain ⟨quote, backslash, Nat.le_of_not_lt printable⟩, eq⟩

theorem rest_of_stringItem (h : stringItem c = .ok (none, c')) : c.rest = '"' :: c'.rest := by
  obtain ⟨y, head, found⟩ := head_of_peek h
  split at found
  . cases found
  . obtain ⟨c₁, eq, found⟩ := rest_of_advance head found
    obtain ⟨_, rfl⟩ := pure_eq_ok.1 found
    exact eq
  . obtain ⟨_, _, found⟩ := rest_of_advance head found
    obtain ⟨_, _, same⟩ := map_eq_ok.1 found
    cases same
  . split at found
    . cases found
    . obtain ⟨_, _, found⟩ := rest_of_advance head found
      cases found

theorem length_lt_of_pieces (ne : pieces ≠ [])
    (eq : c.rest = pieces.flatMap Piece.text ++ c'.rest) : c'.rest.length < c.rest.length := by
  obtain ⟨p, others, rfl⟩ := List.exists_cons_of_ne_nil ne
  rw [eq, List.flatMap_cons, List.append_assoc]
  apply Nat.lt_of_le_of_lt _ (p.length_lt_text _)
  rw [List.length_append]
  omega

theorem rest_of_stringRest {text : String} (h : stringRest c = .ok (text, c')) :
    ∃ pieces, Piece.string? pieces = some text ∧
      c.rest = pieces.flatMap Piece.text ++ '"' :: c'.rest := by
  obtain ⟨chars, c₁, collected, done⟩ := bind_eq_ok.1 h
  obtain ⟨rfl, rfl⟩ := pure_eq_ok.1 done
  have collecting := collecting_of_collect (n := c.rest.length) (fun _ found => by
    obtain ⟨pieces, standFor, eq⟩ := standFor_of_stringItem found
    exact length_lt_of_pieces standFor.1 eq) (Nat.le_refl _) collected
  suffices all : ∃ pieces, Piece.chars? pieces = some chars ∧
      c.rest = pieces.flatMap Piece.text ++ '"' :: c₁.rest by
    obtain ⟨pieces, eq, rest⟩ := all
    exact ⟨pieces, congrArg (Option.map String.ofList) eq, rest⟩
  clear h collected done
  generalize true = first at collecting
  induction collecting with
  | stop last => exact ⟨[], rfl, rest_of_stringItem last⟩
  | item one _ ih =>
    obtain ⟨pieces, eq, rest⟩ := ih
    obtain ⟨first, standFor, here⟩ := standFor_of_stringItem one
    refine ⟨first ++ pieces, ?_, ?_⟩
    . rw [standFor.2, eq]
      rfl
    . rw [here, rest, List.flatMap_append, List.append_assoc]

theorem finds_stringItem_plain (ok) (rest : List Char) :
    Finds stringItem ((Piece.plain x ok).text ++ rest) (some x) rest := by
  obtain ⟨quote, backslash, printable⟩ := ok
  unfold stringItem
  apply (finds_peek _).bind
  simp only [Piece.text, List.cons_append, List.head?_cons, if_neg (Nat.not_lt.2 printable)]
  exact (finds_pure _ rest).advance

theorem finds_stringItem_escape {t : List Char} (found : Finds escape t x rest) :
    Finds stringItem ('\\' :: t) (some x) rest := by
  unfold stringItem
  exact (finds_peek _).bind (found.map some).advance

theorem finds_escape_unicode {t : List Char} (found : Finds unicodeEscape t x rest) :
    Finds escape ('u' :: t) x rest := by
  unfold escape
  exact (finds_peek _).bind found.advance

theorem finds_unicodeEscape_of (ok : hexNumber? digits = some n)
    (notTrailing : isTrailingSurrogate n = false) (notLeading : isLeadingSurrogate n = false)
    (rest : List Char) : Finds unicodeEscape (digits ++ rest) (Char.ofNat n) rest := by
  unfold unicodeEscape
  apply (finds_hex4_of ok rest).bind
  simp only [notTrailing, notLeading]
  exact finds_pure _ rest

theorem finds_unicodeEscape_pair (ok : hexNumber? digits = some n)
    (ok' : hexNumber? digits' = some m) (notTrailing : isTrailingSurrogate n = false)
    (leading : isLeadingSurrogate n = true) (trailing : isTrailingSurrogate m = true)
    (rest : List Char) :
    Finds unicodeEscape (digits ++ '\\' :: 'u' :: (digits' ++ rest)) (Piece.pair n m) rest := by
  unfold unicodeEscape
  apply (finds_hex4_of ok _).bind
  simp only [notTrailing, leading, if_true]
  apply (finds_afterSurrogate _ _).bind
  apply (finds_afterSurrogate _ _).bind
  apply (finds_hex4_of ok' rest).bind
  simp only [trailing, if_true]
  exact finds_pure _ rest

theorem ne_u_of_shortEscape? {letter : Char} (ok : shortEscape? letter = some x) :
    letter ≠ 'u' := by
  rintro rfl
  cases ok

theorem collected_pieces (ok : Piece.chars? pieces = some chars) (first : Bool)
    (rest : List Char) :
    Collected (fun _ => stringItem) first (pieces.flatMap Piece.text ++ '"' :: rest) chars
      rest := by
  fun_induction Piece.chars? pieces generalizing chars first with
  | case1 =>
    cases ok
    apply Collected.stop
    unfold stringItem
    exact (finds_peek _).bind (finds_pure none rest).advance
  | case2 x ok' others ih =>
    obtain ⟨chars, eq, rfl⟩ := Option.map_eq_some_iff.1 ok
    rw [List.flatMap_cons, List.append_assoc]
    exact .item (finds_stringItem_plain ok' _) (Piece.length_lt_text _ _) (ih eq false)
  | case3 letter x ok' others ih =>
    obtain ⟨chars, eq, rfl⟩ := Option.map_eq_some_iff.1 ok
    rw [List.flatMap_cons, List.append_assoc]
    have found := finds_escape_of_short ok' (ne_u_of_shortEscape? ok')
    exact .item (finds_stringItem_escape (found _)) (Piece.length_lt_text _ _) (ih eq false)
  | case4 => cases ok
  | case5 digits n ok' notTrailing leading digits' m ok'' others trailing ih =>
    obtain ⟨chars, eq, rfl⟩ := Option.map_eq_some_iff.1 ok
    have found := finds_unicodeEscape_pair ok' ok'' (by simpa using notTrailing) leading trailing
    have item := finds_stringItem_escape (finds_escape_unicode (found
      (others.flatMap Piece.text ++ '"' :: rest)))
    rw [List.flatMap_cons, List.flatMap_cons, List.append_assoc, List.append_assoc]
    exact .item item (Nat.lt_trans (Piece.length_lt_text (.code digits' m ok'') _)
      (Piece.length_lt_text (.code digits n ok') _)) (ih eq false)
  | case6 => cases ok
  | case7 => cases ok
  | case8 digits n ok' others notTrailing notLeading ih =>
    obtain ⟨chars, eq, rfl⟩ := Option.map_eq_some_iff.1 ok
    have found := finds_unicodeEscape_of ok' (by simpa using notTrailing)
      (by simpa using notLeading)
    have item := finds_stringItem_escape (finds_escape_unicode (found
      (others.flatMap Piece.text ++ '"' :: rest)))
    rw [List.flatMap_cons, List.append_assoc]
    exact .item item (Piece.length_lt_text _ _) (ih eq false)

theorem finds_stringRest_of {text : String} (ok : Piece.string? pieces = some text)
    (rest : List Char) :
    Finds stringRest (pieces.flatMap Piece.text ++ '"' :: rest) text rest := by
  obtain ⟨chars, eq, rfl⟩ := Option.map_eq_some_iff.1 ok
  exact (collected_pieces eq true rest).finds.bind (finds_pure _ rest)

theorem exists_piece_of_ignoredItem {u : Unit} (h : ignoredItem c = .ok (some u, c')) :
    ∃ p : Piece, c.rest = p.text ++ c'.rest := by
  obtain ⟨y, head, found⟩ := head_of_peek h
  split at found
  . cases found
  . obtain ⟨_, _, found⟩ := rest_of_advance head found
    cases found
  . obtain ⟨c₁, eq, found⟩ := rest_of_advance head found
    obtain ⟨z, head', found⟩ := head_of_peek found
    split at found
    . cases found
    . obtain ⟨c₂, eq', found⟩ := rest_of_advance head' found
      obtain ⟨n, c₃, read, done⟩ := bind_eq_ok.1 found
      obtain ⟨digits, ok, eq''⟩ := rest_of_hex4 read
      obtain ⟨_, rfl⟩ := pure_eq_ok.1 done
      exact ⟨.code digits n ok, by rw [eq, eq', eq'']; rfl⟩
    . next letter _ =>
      split at found
      . next isEscape =>
        obtain ⟨x, ok⟩ := Option.isSome_iff_exists.1 isEscape
        obtain ⟨c₂, eq', found⟩ := rest_of_advance head' found
        obtain ⟨_, rfl⟩ := pure_eq_ok.1 found
        exact ⟨.short letter x ok, by rw [eq, eq']; rfl⟩
      . cases found
  . next y quote backslash =>
    split at found
    . cases found
    next printable =>
    obtain ⟨c₁, eq, found⟩ := rest_of_advance head found
    obtain ⟨_, rfl⟩ := pure_eq_ok.1 found
    exact ⟨.plain y ⟨quote, backslash, Nat.le_of_not_lt printable⟩, eq⟩

theorem rest_of_ignoredItem (h : ignoredItem c = .ok (none, c')) : c.rest = '"' :: c'.rest := by
  obtain ⟨y, head, found⟩ := head_of_peek h
  split at found
  . cases found
  . obtain ⟨c₁, eq, found⟩ := rest_of_advance head found
    obtain ⟨_, rfl⟩ := pure_eq_ok.1 found
    exact eq
  . obtain ⟨c₁, eq, found⟩ := rest_of_advance head found
    obtain ⟨z, head', found⟩ := head_of_peek found
    split at found
    . cases found
    . obtain ⟨c₂, eq', found⟩ := rest_of_advance head' found
      obtain ⟨_, _, _, done⟩ := bind_eq_ok.1 found
      cases done
    . split at found
      . obtain ⟨_, _, found⟩ := rest_of_advance head' found
        cases found
      . cases found
  . split at found
    . cases found
    . obtain ⟨_, _, found⟩ := rest_of_advance head found
      cases found

theorem rest_of_ignoredString {u : Unit} (h : ignoredString c = .ok (u, c')) :
    ∃ pieces : List Piece, c.rest = pieces.flatMap Piece.text ++ '"' :: c'.rest := by
  obtain ⟨units, c₁, collected, done⟩ := bind_eq_ok.1 h
  obtain ⟨_, rfl⟩ := pure_eq_ok.1 done
  have collecting := collecting_of_collect (n := c.rest.length) (fun _ found => by
    obtain ⟨p, eq⟩ := exists_piece_of_ignoredItem found
    apply length_lt_of_pieces (List.cons_ne_nil p [])
    rw [eq, List.flatMap_singleton]) (Nat.le_refl _) collected
  clear h collected done
  generalize true = first at collecting
  induction collecting with
  | stop last => exact ⟨[], rest_of_ignoredItem last⟩
  | item one _ ih =>
    obtain ⟨pieces, rest⟩ := ih
    obtain ⟨p, here⟩ := exists_piece_of_ignoredItem one
    exact ⟨p :: pieces, by rw [here, rest, List.flatMap_cons, List.append_assoc]⟩

theorem finds_ignoredItem (p : Piece) (rest : List Char) :
    Finds ignoredItem (p.text ++ rest) (some ()) rest := by
  unfold ignoredItem
  cases p with
  | plain x ok =>
    obtain ⟨quote, backslash, printable⟩ := ok
    apply (finds_peek (x :: rest)).bind
    simp only [List.head?_cons, if_neg (Nat.not_lt.2 printable)]
    exact (finds_pure _ rest).advance
  | short letter x ok =>
    have ne := ne_u_of_shortEscape? ok
    apply (finds_peek ('\\' :: letter :: rest)).bind
    apply Finds.advance
    apply (finds_peek (letter :: rest)).bind
    simp only [List.head?_cons, ok, Option.isSome_some, if_true]
    exact (finds_pure _ rest).advance
  | code digits n ok =>
    apply (finds_peek ('\\' :: 'u' :: (digits ++ rest))).bind
    apply Finds.advance
    apply (finds_peek _).bind
    apply Finds.advance
    exact (finds_hex4_of ok rest).bind (finds_pure _ rest)

theorem finds_ignoredString (pieces : List Piece) (rest : List Char) :
    Finds ignoredString (pieces.flatMap Piece.text ++ '"' :: rest) () rest := by
  suffices all : ∀ first, ∃ units, Collected (fun _ => ignoredItem) first
      (pieces.flatMap Piece.text ++ '"' :: rest) units rest by
    obtain ⟨units, collected⟩ := all true
    exact collected.finds.bind (finds_pure () rest)
  induction pieces with
  | nil =>
    intro first
    refine ⟨[], .stop ?_⟩
    unfold ignoredItem
    exact (finds_peek _).bind (finds_pure none rest).advance
  | cons p pieces ih =>
    intro first
    obtain ⟨units, collected⟩ := ih false
    rw [List.flatMap_cons, List.append_assoc]
    exact ⟨() :: units, .item (finds_ignoredItem p _) (p.length_lt_text _) collected⟩

end Reader

end Json

end Interaction
