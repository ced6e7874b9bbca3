import Interaction.Proofs.Message.Incoming
import Interaction.Proofs.Message.Lines
import Interaction.Proofs.Text.Encoding
import Mathlib

/-!
This module contains a reader that is asked for one message after the other. It goes on from where
it stopped, past blank lines and after errors alike; what it gives in the end is what the lines of
the stream hold, each by itself.
-/

namespace Interaction

namespace Lines

variable {before after bytes line : List UInt8} {number : Nat}

def items (bytes : List UInt8) : List (Except Fault Message) := (read bytes).map (·.2)

theorem parse_of_unreadable (h : Text.decode? line = none) :
    parse line = some (.error (.unreadable .notText)) := by
  unfold parse
  rw [h]

theorem parse_of_text {text : String} (h : Text.decode? line = some text)
    (full : ∃ c ∈ text.toList, Text.isBlank c = false) :
    parse line = some ((Message.parse (Text.trim text.toList)).mapError .malformedMessage) := by
  have content : Text.trim text.toList ≠ [] := by
    rw [Ne, Text.trim_eq_nil_iff]
    intro blank
    obtain ⟨c, mem, other⟩ := full
    rw [blank c mem] at other
    cases other
  unfold parse
  rw [h]
  simp [content]

theorem parse_append_lineFeed (line : List UInt8) : parse (line ++ [10]) = parse line := by
  have blank : ∀ c ∈ "\n".toList, Text.isBlank c = true := by simp [Text.isBlank]
  unfold parse
  rw [Text.decode?_append_lineFeed]
  match Text.decode? line with
  | none => rfl
  | some text => simp only [Option.map_some, String.toList_append, Text.trim_append_of_blank blank]

theorem parse_lineFeed : parse [10] = none :=
  parse_of_blank (Text.decode?_encode "\n") (by simp [Text.isBlank])

theorem flatten_cut (bytes : List UInt8) : (cut bytes).flatten = bytes := by
  induction bytes with
  | nil => rfl
  | cons byte bytes ih =>
    simp only [cut]
    split
    . simp [ih]
    . split
      . next none => simpa [none] using ih
      . next line others eq => simpa [eq] using ih

def IsLine (line : List UInt8) : Prop := line ≠ [] ∧ 10 ∉ line.dropLast

theorem isLine_of_mem_cut (mem : line ∈ cut bytes) : IsLine line := by
  induction bytes generalizing line with
  | nil => simp [cut] at mem
  | cons byte bytes ih =>
    simp only [cut] at mem
    split at mem
    . rcases List.mem_cons.1 mem with rfl | mem
      . simp [IsLine]
      . exact ih mem
    . next other =>
      split at mem
      . rw [List.mem_singleton] at mem
        simp [mem, IsLine]
      . next first others eq =>
        rcases List.mem_cons.1 mem with rfl | mem
        . obtain ⟨full, noFeed⟩ := ih (eq ▸ List.mem_cons_self)
          refine ⟨by simp, ?_⟩
          rw [List.dropLast_cons_of_ne_nil full, List.mem_cons, not_or]
          exact ⟨Ne.symm other, noFeed⟩
        . exact ih (eq ▸ List.mem_cons_of_mem first mem)

theorem getLast?_of_mem_dropLast_cut (mem : line ∈ (cut bytes).dropLast) :
    line.getLast? = some 10 := by
  induction bytes generalizing line with
  | nil => simp [cut] at mem
  | cons byte bytes ih =>
    simp only [cut] at mem
    split at mem
    . next feed =>
      cases eq : cut bytes with
      | nil => simp [eq] at mem
      | cons first others =>
        rw [eq, List.dropLast_cons_cons, ← eq] at mem
        rcases List.mem_cons.1 mem with rfl | mem
        . simp [feed]
        . exact ih mem
    . split at mem
      . simp at mem
      . next first others eq =>
        cases others with
        | nil => simp at mem
        | cons next others =>
          rw [List.dropLast_cons_cons] at mem
          rw [eq, List.dropLast_cons_cons] at ih
          rcases List.mem_cons.1 mem with rfl | mem
          . have last := ih List.mem_cons_self
            rw [List.getLast?_cons, last]
            rfl
          . exact ih (List.mem_cons_of_mem first mem)

theorem exists_boundary (bytes : List UInt8) :
    ∃ lines last, bytes = lines ++ last ∧ Boundary lines ∧ 10 ∉ last := by
  induction bytes using List.reverseRecOn with
  | nil => exact ⟨[], [], rfl, .inl rfl, List.not_mem_nil⟩
  | append_singleton bytes byte ih =>
    by_cases feed : byte = 10
    . exact ⟨bytes ++ [byte], [], by simp, .inr (by simp [feed]), List.not_mem_nil⟩
    . obtain ⟨lines, last, rfl, boundary, noFeed⟩ := ih
      refine ⟨lines, last ++ [byte], by simp, boundary, ?_⟩
      simp [noFeed, Ne.symm feed]

theorem items_eq (bytes : List UInt8) : items bytes = (cut bytes).filterMap parse :=
  map_snd_read bytes

theorem items_append (boundary : Boundary before) (after : List UInt8) :
    items (before ++ after) = items before ++ items after := by
  rw [items_eq, cut_append boundary, List.filterMap_append, ← items_eq, ← items_eq]

theorem items_of_isLine (h : IsLine line) : items line = (parse line).toList := by
  rw [items_eq, cut_eq_singleton h.1 h.2]
  cases eq : parse line <;> simp [eq]

theorem items_of_no_lineFeed (noFeed : 10 ∉ line) : items line = (parse line).toList := by
  by_cases empty : line = []
  . have blank : parse [] = none := by
      rw [← parse_append_lineFeed]
      exact parse_lineFeed
    rw [empty, blank]
    rfl
  . apply items_of_isLine
    exact ⟨empty, fun mem => noFeed (List.dropLast_subset line mem)⟩

theorem items_append_lineFeed (bytes : List UInt8) : items (bytes ++ [10]) = items bytes := by
  obtain ⟨lines, last, rfl, boundary, noFeed⟩ := exists_boundary bytes
  have feed : IsLine (last ++ [10]) := by simp [IsLine, noFeed]
  rw [List.append_assoc, items_append boundary, items_append boundary, items_of_isLine feed,
    parse_append_lineFeed, items_of_no_lineFeed noFeed]

theorem items_append_lineFeed_append (before after : List UInt8) :
    items (before ++ 10 :: after) = items before ++ items after := by
  have boundary : Boundary (before ++ [10]) := .inr (by simp)
  rw [← List.singleton_append, ← List.append_assoc, items_append boundary, items_append_lineFeed]

theorem items_around_line (noFeed : 10 ∉ line) (before after : List UInt8) :
    items (before ++ 10 :: (line ++ 10 :: after)) =
      items before ++ (parse line).toList ++ items after := by
  rw [items_append_lineFeed_append, items_append_lineFeed_append, items_of_no_lineFeed noFeed,
    List.append_assoc]

theorem count_eq (bytes : List UInt8) :
    count bytes = (cut bytes).countP fun line => (Text.decode? line).isSome := by
  have counted : ∀ (lines : List (List UInt8)) (number : Nat), lines.foldl numberAfter number =
      number + lines.countP fun line => (Text.decode? line).isSome := by
    intro lines
    induction lines with
    | nil => intro number; rfl
    | cons line lines ih =>
      intro number
      rw [List.foldl_cons, ih, List.countP_cons, numberAfter]
      split <;> omega
  rw [count, counted, Nat.zero_add]

theorem cut_cons (byte : UInt8) (bytes : List UInt8) :
    cut (byte :: bytes) = (takeLine (byte :: bytes)).1 :: cut (takeLine (byte :: bytes)).2 := by
  induction bytes generalizing byte with
  | nil => by_cases feed : byte = 10 <;> simp [cut, takeLine, feed]
  | cons next bytes ih =>
    rw [cut, takeLine]
    split
    . rfl
    . rw [ih next]

end Lines

namespace Stream

open Lines

/-- What is read from a stream until nothing is left, each with the number of its line. -/
inductive Yields : Stream → List (Nat × Except Fault Message) → Stream → Prop
  | done {s t : Stream} (asked : s.next = (none, t)) : Yields s [] t
  | item {s t u : Stream} {result : Except Fault Message} {others : List _}
    (asked : s.next = (some result, t)) (rest : Yields t others u) :
    Yields s ((t.number, result) :: others) u

variable {s t u u' : Stream} {results results' : List (Nat × Except Fault Message)}
variable {bytes : List UInt8} {number : Nat}

theorem next_nil (number : Nat) : next ⟨[], number⟩ = (none, ⟨[], number⟩) := by
  rw [next]

theorem next_cons (byte : UInt8) (bytes : List UInt8) (number : Nat) :
    next ⟨byte :: bytes, number⟩ =
      match parse (takeLine (byte :: bytes)).1 with
      | none => next ⟨(takeLine (byte :: bytes)).2, numberAfter number (takeLine (byte :: bytes)).1⟩
      | some result => (some result,
        ⟨(takeLine (byte :: bytes)).2, numberAfter number (takeLine (byte :: bytes)).1⟩) := by
  rw [next, parse, numberAfter]
  simp only
  cases Text.decode? (takeLine (byte :: bytes)).1 with
  | none => rfl
  | some text =>
    by_cases blank : (Text.trim text.toList).isEmpty = true
    . simp only [blank, if_true, Option.isSome_some]
    . simp [blank]

theorem Yields.of_next_eq (same : s.next = t.next) (h : t.Yields results u) :
    s.Yields results u := by
  cases h with
  | done asked => exact .done (same.trans asked)
  | item asked rest => exact .item (same.trans asked) rest

theorem Yields.unique (h : s.Yields results u) (h' : s.Yields results' u') :
    results = results' ∧ u = u' := by
  induction h generalizing results' with
  | done asked =>
    cases h' with
    | done asked' =>
      rw [asked] at asked'
      cases asked'
      exact ⟨rfl, rfl⟩
    | item asked' _ =>
      rw [asked] at asked'
      cases asked'
  | item asked _ ih =>
    cases h' with
    | done asked' =>
      rw [asked] at asked'
      cases asked'
    | item asked' rest' =>
      rw [asked] at asked'
      cases asked'
      obtain ⟨rfl, rfl⟩ := ih rest'
      exact ⟨rfl, rfl⟩

theorem yields (bytes : List UInt8) (number : Nat) :
    Yields ⟨bytes, number⟩ (readFrom number (cut bytes))
      ⟨[], (cut bytes).foldl numberAfter number⟩ := by
  cases bytes with
  | nil => exact .done (next_nil number)
  | cons byte bytes =>
    have asked := next_cons byte bytes number
    have later := yields (takeLine (byte :: bytes)).2
      (numberAfter number (takeLine (byte :: bytes)).1)
    simp only [cut_cons, readFrom, List.foldl_cons]
    cases held : parse (takeLine (byte :: bytes)).1 with
    | none =>
      rw [held] at asked
      exact later.of_next_eq asked
    | some result =>
      rw [held] at asked
      exact .item asked later
termination_by bytes.length
decreasing_by exact length_takeLine_cons_lt byte bytes

theorem yields_ofBytes_iff :
    (ofBytes bytes).Yields results u ↔ results = read bytes ∧ u = ⟨[], count bytes⟩ := by
  have whole : (ofBytes bytes).Yields (read bytes) ⟨[], count bytes⟩ := yields bytes 0
  constructor
  . intro h
    exact h.unique whole
  . rintro ⟨rfl, rfl⟩
    exact whole

/--
A reader that is asked until nothing is left goes through the whole stream. It gives what the lines
hold, in order: a fault for one that is no text, nothing for a blank one, and what its trimmed text
is read as for any other. So a stream with a line feed in it gives what is before the line feed, and
then what is after it, whatever a line between the two holds. All lines that are texts are numbered.
-/
theorem yields_each_line (bytes : List UInt8) :
    (∀ results final, (ofBytes bytes).Yields results final ↔ results = read bytes ∧
      final = ⟨[], (cut bytes).countP fun line => (Text.decode? line).isSome⟩) ∧
    items bytes = (cut bytes).filterMap parse ∧
    ((cut bytes).flatten = bytes ∧ (∀ line ∈ cut bytes, IsLine line) ∧
      ∀ line ∈ (cut bytes).dropLast, line.getLast? = some 10) ∧
    (∀ line,
      (Text.decode? line = none → parse line = some (.error (.unreadable .notText))) ∧
      ∀ text, Text.decode? line = some text →
        ((∀ c ∈ text.toList, Text.isBlank c = true) → parse line = none) ∧
        ((∃ c ∈ text.toList, Text.isBlank c = false) → parse line =
          some ((Message.parse (Text.trim text.toList)).mapError .malformedMessage))) ∧
    (∀ after, items (bytes ++ 10 :: after) = items bytes ++ items after) ∧
    ∀ line after, 10 ∉ line →
      items (bytes ++ 10 :: (line ++ 10 :: after)) =
        items bytes ++ (parse line).toList ++ items after := by
  refine ⟨?_, items_eq bytes, ⟨flatten_cut bytes, fun _ => isLine_of_mem_cut,
    fun _ => getLast?_of_mem_dropLast_cut⟩, ?_, items_append_lineFeed_append bytes, ?_⟩
  . intro results final
    rw [yields_ofBytes_iff, count_eq]
  . intro line
    exact ⟨parse_of_unreadable, fun text decoded => ⟨parse_of_blank decoded, parse_of_text decoded⟩⟩
  . intro line after noFeed
    exact items_around_line noFeed bytes after

theorem yields_each_line_unreadable :
    (ofBytes [255, 10, 32, 10, 123]).Yields
      [(0, .error (.unreadable .notText)),
        (2, .error (.malformedMessage ⟨.endInObject, some 1⟩))] ⟨[], 2⟩ := by
  rw [(yields_each_line _).1]
  constructor
  . cbv
  . cbv

end Stream

end Interaction
