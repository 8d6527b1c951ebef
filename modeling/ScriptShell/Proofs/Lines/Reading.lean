import Mathlib.Data.List.DropRight
import Mathlib.Data.List.Forall2
import ScriptShell.Lines
import ScriptShell.Classify

/-!
# ScriptShell.Proofs.Lines.Reading

What reading line after line answers. Bytes fall into stretches that a newline ends and a stretch
behind the last newline. Each call takes one of them and answers from it alone, so that a segment
that is no text costs one answer and no more.

* `Segmented`: how the bytes fall into stretches; `segmentsOf` are the segments that are read.
* `AnsweredBy`: what a segment is answered with.
* `Segmented.forall₂_answeredBy`, `answers_eq_take`: the answers of any number of calls, over any
  bytes.
* `readLines_text`: the lines of a pending block come back from its text.
* `answers_lines`: the two together.
-/

namespace ScriptShell

/-- The answer behind the last line. -/
abbrev inputOver : Except ReadError String := .error .endOfInput

/-- The bytes of a text. -/
def utf8 (text : String) : List UInt8 := text.toUTF8.data.toList

/-- The answers of so many calls. -/
def answers : Nat → List UInt8 → List (Except ReadError String)
  | 0, _ => []
  | n + 1, bytes => (nextLine bytes).1 :: answers n (nextLine bytes).2

/-- The bytes are the stretches `ended`, each with a newline behind it, and then `tail`. -/
structure Segmented (bytes : List UInt8) (ended : List (List UInt8)) (tail : List UInt8) :
    Prop where
  bytes_eq : bytes = ended.flatMap (· ++ [newlineByte]) ++ tail
  ended_clean : ∀ s ∈ ended, newlineByte ∉ s
  tail_clean : newlineByte ∉ tail

/-- The segments that are read: every ended stretch with its newline, and the tail unless it is
empty. -/
def segmentsOf (ended : List (List UInt8)) (tail : List UInt8) : List (List UInt8) :=
  ended.map (· ++ [newlineByte]) ++ if tail = [] then [] else [tail]

/-- A line can stand in a text of lines: there is no newline in it and no return at its end. -/
def IsLine (line : String) : Prop :=
  '\n' ∉ line.toList ∧ line.toList.getLast? ≠ some '\r'

instance (line : String) : Decidable (IsLine line) :=
  inferInstanceAs (Decidable (_ ∧ _))

/-- What a segment is answered with: a line, behind which only returns and a newline have been left
out, or the report that it is no text. -/
inductive AnsweredBy (segment : List UInt8) : Except ReadError String → Prop where
  | line {line : String} (returns : Nat) (ending : String) :
      IsLine line → ending = "" ∨ ending = "\n" →
      segment = utf8 (line ++ String.ofList (List.replicate returns '\r') ++ ending) →
      AnsweredBy segment (.ok line)
  | unreadable : (∀ text, segment ≠ utf8 text) →
      AnsweredBy segment (.error (.io "stream did not contain valid UTF-8"))

/-- The block of so many lines. -/
def PendingBlock.ofLines : List String → PendingBlock
  | [] => ⟨#[]⟩
  | first :: rest => rest.foldl PendingBlock.push (.start first)

/-! ## Bytes of a text -/

theorem utf8_append (s t : String) : utf8 (s ++ t) = utf8 s ++ utf8 t := by
  simp [utf8]

theorem utf8_ofList (cs : List Char) :
    utf8 (String.ofList cs) = cs.flatMap String.utf8EncodeChar := by
  simp [utf8, List.utf8Encode]

theorem utf8_newline : utf8 "\n" = [newlineByte] := by
  decide

theorem newlineByte_eq_ofNat {k : Nat} : newlineByte = UInt8.ofNat k ↔ k % 256 = 10 := by
  rw [← UInt8.toNat_inj, UInt8.toNat_ofNat', newlineByte]
  simp [eq_comm]

/-- Only a newline has a byte in it that looks like one. -/
theorem newlineByte_mem_encode {c : Char} :
    newlineByte ∈ String.utf8EncodeChar c ↔ c = '\n' := by
  constructor
  · intro h
    have hval : c.val.toNat = 10 := by
      -- every byte of a longer form is above all bytes of the short one
      simp only [String.utf8EncodeChar] at h
      split at h
      · simp only [List.mem_singleton, newlineByte_eq_ofNat] at h
        omega
      · exfalso
        split at h
        · simp only [List.mem_cons, List.not_mem_nil, or_false, newlineByte_eq_ofNat] at h
          omega
        · split at h <;>
            simp only [List.mem_cons, List.not_mem_nil, or_false, newlineByte_eq_ofNat] at h <;>
            omega
    exact Char.ext (UInt32.toNat_inj.1 hval)
  · rintro rfl
    decide

theorem newlineByte_mem_utf8 {text : String} : newlineByte ∈ utf8 text ↔ '\n' ∈ text.toList := by
  rw [← String.ofList_toList (s := text), utf8_ofList, List.mem_flatMap]
  simp [newlineByte_mem_encode]

/-- A text whose bytes end with a newline ends with one. -/
theorem exists_of_utf8_ended {text : String} {stretch : List UInt8}
    (h : utf8 text = stretch ++ [newlineByte]) :
    ∃ front, text = front ++ "\n" ∧ utf8 front = stretch := by
  rcases List.eq_nil_or_concat' text.toList with hnil | ⟨cs, c, hcs⟩
  · rw [← String.ofList_toList (s := text), hnil, utf8_ofList] at h
    simp at h
  · have htext : text = String.ofList (cs ++ [c]) := by
      rw [← hcs, String.ofList_toList]
    rw [htext, utf8_ofList, List.flatMap_append, List.flatMap_singleton] at h
    have hc : c = '\n' := by
      rw [← newlineByte_mem_encode]
      have hlast := congrArg List.getLast? h
      rw [List.getLast?_append_of_ne_nil _ String.utf8EncodeChar_ne_nil] at hlast
      exact List.mem_of_getLast? (by simpa using hlast)
    subst hc
    refine ⟨String.ofList cs, by rw [htext, String.ofList_append], ?_⟩
    rw [utf8_ofList]
    exact List.append_cancel_right h

theorem fromUTF8?_utf8 (text : String) : String.fromUTF8? ⟨(utf8 text).toArray⟩ = some text := by
  have h : (⟨(utf8 text).toArray⟩ : ByteArray) = text.toByteArray := by
    simp [utf8]
  rw [h, String.fromUTF8?, dif_pos text.isValidUTF8]
  rfl

theorem utf8_of_fromUTF8? {bytes : List UInt8} {text : String}
    (h : String.fromUTF8? ⟨bytes.toArray⟩ = some text) : bytes = utf8 text := by
  unfold String.fromUTF8? at h
  split at h
  · cases h
    simp [utf8, String.fromUTF8]
  · cases h

/-! ## One segment -/

theorem withoutLineEnd_append {cs : List Char} (ends : List Char)
    (hlast : ∀ c, cs.getLast? = some c → c ≠ '\r' ∧ c ≠ '\n')
    (hends : ∀ c ∈ ends, c = '\r' ∨ c = '\n') :
    withoutLineEnd (String.ofList (cs ++ ends)) = String.ofList cs := by
  have hself : cs.rdropWhile (fun c => c = '\r' || c = '\n') = cs := by
    rw [List.rdropWhile_eq_self_iff]
    intro hne
    simpa using hlast _ (List.getLast?_eq_getLast_of_ne_nil hne)
  rw [withoutLineEnd, String.toList_ofList, List.reverse_append,
    List.dropWhile_append_of_pos (by simpa using hends)]
  exact congrArg String.ofList hself

theorem IsLine.trimmed {line : String} (h : IsLine line) (returns : Nat) {ending : String}
    (hending : ending = "" ∨ ending = "\n") :
    withoutLineEnd (line ++ String.ofList (List.replicate returns '\r') ++ ending) = line := by
  have hlast : ∀ c, line.toList.getLast? = some c → c ≠ '\r' ∧ c ≠ '\n' := by
    intro c hc
    refine ⟨?_, ?_⟩
    · rintro rfl
      exact h.2 hc
    · rintro rfl
      exact h.1 (List.mem_of_getLast? hc)
  have hends : ∀ c ∈ List.replicate returns '\r' ++ ending.toList, c = '\r' ∨ c = '\n' := by
    intro c hc
    rcases List.mem_append.1 hc with hc | hc
    · exact .inl (List.eq_of_mem_replicate hc)
    · rcases hending with rfl | rfl
      · simp at hc
      · exact .inr (by simpa using hc)
  have htrimmed := withoutLineEnd_append _ hlast hends
  rwa [String.ofList_append, String.ofList_append, String.ofList_toList, String.ofList_toList,
    ← String.append_assoc] at htrimmed

/-- A text without a newline is a line and then returns. -/
theorem exists_isLine {text : String} (h : '\n' ∉ text.toList) :
    ∃ line returns, IsLine line ∧ text = line ++ String.ofList (List.replicate returns '\r') := by
  have happend : text.toList.rdropWhile (· = '\r') ++ text.toList.rtakeWhile (· = '\r') =
      text.toList := List.rdropWhile_append_rtakeWhile
  have hreturns : text.toList.rtakeWhile (· = '\r') =
      List.replicate (text.toList.rtakeWhile (· = '\r')).length '\r' :=
    List.eq_replicate_length.2 fun c hc => by simpa using List.mem_rtakeWhile_imp hc
  refine ⟨String.ofList (text.toList.rdropWhile (· = '\r')),
    (text.toList.rtakeWhile (· = '\r')).length, ⟨?_, ?_⟩, ?_⟩
  · rw [String.toList_ofList]
    exact fun hmem => h ((List.rdropWhile_prefix _ _).subset hmem)
  · rw [String.toList_ofList]
    intro hlast
    have hne : text.toList.rdropWhile (· = '\r') ≠ [] := by
      rintro hnil
      rw [hnil] at hlast
      cases hlast
    have hnot := List.rdropWhile_last_not (· = '\r') _ hne
    rw [List.getLast?_eq_getLast_of_ne_nil hne, Option.some.injEq] at hlast
    exact hnot (by simpa using hlast)
  · rw [← hreturns, ← String.ofList_append, happend, String.ofList_toList]

theorem lineOfSegment_answers {stretch ending : List UInt8} (hclean : newlineByte ∉ stretch)
    (hending : ending = [] ∨ ending = [newlineByte]) :
    AnsweredBy (stretch ++ ending) (lineOfSegment (stretch ++ ending)) := by
  unfold lineOfSegment
  split
  · rename_i text htext
    have hbytes := utf8_of_fromUTF8? htext
    obtain ⟨front, end', hend', rfl, hfront⟩ : ∃ front end', (end' = "" ∨ end' = "\n") ∧
        text = front ++ end' ∧ utf8 front = stretch := by
      rcases hending with rfl | rfl
      · exact ⟨text, "", .inl rfl, by simp, by simpa using hbytes.symm⟩
      · obtain ⟨front, rfl, hfront⟩ := exists_of_utf8_ended hbytes.symm
        exact ⟨front, "\n", .inr rfl, rfl, hfront⟩
    have hnewline : '\n' ∉ front.toList := by
      rw [← newlineByte_mem_utf8, hfront]
      exact hclean
    obtain ⟨line, returns, hline, rfl⟩ := exists_isLine hnewline
    rw [hline.trimmed returns hend']
    exact .line returns end' hline hend' hbytes
  · rename_i hnone
    refine .unreadable fun text htext => ?_
    rw [htext, fromUTF8?_utf8] at hnone
    cases hnone

/-- A segment has one answer. -/
theorem AnsweredBy.eq_lineOfSegment {segment : List UInt8} {answer : Except ReadError String}
    (h : AnsweredBy segment answer) : answer = lineOfSegment segment := by
  cases h with
  | line returns ending hline hending hsegment =>
    rw [hsegment, lineOfSegment, fromUTF8?_utf8]
    simp only [hline.trimmed returns hending]
  | unreadable hno =>
    unfold lineOfSegment
    split
    · rename_i text htext
      exact absurd (utf8_of_fromUTF8? htext) (hno text)
    · rfl

theorem lineOfSegment_line {line : String} (h : IsLine line) :
    lineOfSegment (utf8 line ++ [newlineByte]) = .ok line := by
  refine (AnsweredBy.line 0 "\n" h (.inr rfl) ?_).eq_lineOfSegment.symm
  rw [List.replicate_zero, String.ofList_nil, String.append_empty, utf8_append, utf8_newline]

/-! ## One call after the other -/

theorem nextLine_nil : nextLine [] = (inputOver, []) := by
  rfl

theorem nextSegment_ended {stretch : List UInt8} (h : newlineByte ∉ stretch) (rest : List UInt8) :
    nextSegment (stretch ++ newlineByte :: rest) = (stretch ++ [newlineByte], rest) := by
  have hpass : ∀ b ∈ stretch, decide (b ≠ newlineByte) = true := by
    intro b hb
    exact decide_eq_true (ne_of_mem_of_not_mem hb h)
  simp only [nextSegment]
  rw [List.takeWhile_append_of_pos hpass, List.dropWhile_append_of_pos hpass]
  simp

theorem nextSegment_tail {tail : List UInt8} (h : newlineByte ∉ tail) :
    nextSegment tail = (tail, []) := by
  have hpass : ∀ b ∈ tail, decide (b ≠ newlineByte) = true := by
    intro b hb
    exact decide_eq_true (ne_of_mem_of_not_mem hb h)
  simp only [nextSegment]
  rw [List.takeWhile_eq_self_iff.2 hpass, List.dropWhile_eq_nil_iff.2 hpass]
  simp

theorem nextLine_ended {stretch : List UInt8} (h : newlineByte ∉ stretch) (rest : List UInt8) :
    nextLine (stretch ++ newlineByte :: rest) =
      (lineOfSegment (stretch ++ [newlineByte]), rest) := by
  simp [nextLine, nextSegment_ended h]

theorem nextLine_tail {tail : List UInt8} (h : newlineByte ∉ tail) (hne : tail ≠ []) :
    nextLine tail = (lineOfSegment tail, []) := by
  simp [nextLine, nextSegment_tail h, hne]

@[simp]
theorem readLines_nil : readLines [] = [] := by
  rw [readLines]
  simp

theorem readLines_of_ne_nil {bytes : List UInt8} (h : bytes ≠ []) :
    readLines bytes = (nextLine bytes).1 :: readLines (nextLine bytes).2 := by
  rw [readLines, dif_neg h]

/-- Behind the last line every call answers that the input is over. -/
theorem answers_nil (n : Nat) : answers n [] = List.replicate n inputOver := by
  induction n with
  | zero => rfl
  | succ n ih => rw [answers, nextLine_nil, ih, List.replicate_succ]

theorem answers_eq_take (n : Nat) (bytes : List UInt8) :
    answers n bytes = (readLines bytes ++ List.replicate n inputOver).take n := by
  induction n generalizing bytes with
  | zero => rfl
  | succ n ih =>
    by_cases hbytes : bytes = []
    · subst hbytes
      rw [answers_nil, readLines_nil, List.nil_append, List.take_of_length_le (by simp)]
    · rw [answers, ih, readLines_of_ne_nil hbytes, List.cons_append, List.take_succ_cons]
      congr 1
      -- one answer more at the end is not among the first `n`
      rw [List.replicate_succ', ← List.append_assoc]
      exact (List.take_append_of_le_length (by simp)).symm

/-- The segments are read in order, each of them once. -/
theorem Segmented.readLines_eq {bytes tail : List UInt8} {ended : List (List UInt8)}
    (h : Segmented bytes ended tail) :
    readLines bytes = (segmentsOf ended tail).map lineOfSegment := by
  obtain ⟨rfl, hended, htail⟩ := h
  induction ended with
  | nil =>
    by_cases hnil : tail = []
    · subst hnil
      simp [segmentsOf]
    · simp [segmentsOf, hnil, readLines_of_ne_nil, nextLine_tail htail hnil]
  | cons stretch ended ih =>
    rw [List.forall_mem_cons] at hended
    have hshape : (stretch :: ended).flatMap (· ++ [newlineByte]) ++ tail =
        stretch ++ newlineByte :: (ended.flatMap (· ++ [newlineByte]) ++ tail) := by
      simp
    rw [hshape, readLines_of_ne_nil (by simp), nextLine_ended hended.1, ih hended.2]
    rfl

theorem exists_segmented (bytes : List UInt8) : ∃ ended tail, Segmented bytes ended tail := by
  induction bytes with
  | nil => exact ⟨[], [], rfl, by simp, by simp⟩
  | cons b bytes ih =>
    obtain ⟨ended, tail, rfl, hended, htail⟩ := ih
    by_cases hb : b = newlineByte
    · subst hb
      exact ⟨[] :: ended, tail, by simp, by simpa using hended, htail⟩
    · cases ended with
      | nil => exact ⟨[], b :: tail, by simp, by simp, by simp [Ne.symm hb, htail]⟩
      | cons stretch ended =>
        rw [List.forall_mem_cons] at hended
        refine ⟨(b :: stretch) :: ended, tail, by simp, ?_, htail⟩
        rw [List.forall_mem_cons]
        exact ⟨by simp [Ne.symm hb, hended.1], hended.2⟩

/-- Every segment is answered from its own bytes. -/
theorem Segmented.forall₂_answeredBy {bytes tail : List UInt8} {ended : List (List UInt8)}
    (h : Segmented bytes ended tail) :
    List.Forall₂ AnsweredBy (segmentsOf ended tail) (readLines bytes) := by
  rw [h.readLines_eq, List.forall₂_map_right_iff, List.forall₂_same]
  intro segment hsegment
  rcases List.mem_append.1 hsegment with hmem | hmem
  · obtain ⟨stretch, hstretch, rfl⟩ := List.mem_map.1 hmem
    exact lineOfSegment_answers (h.ended_clean stretch hstretch) (.inr rfl)
  · split at hmem
    · cases hmem
    · rw [List.mem_singleton.1 hmem, ← List.append_nil tail]
      exact lineOfSegment_answers h.tail_clean (.inl rfl)

/-! ## The text of a block -/

theorem PendingBlock.lines_ofLines (lines : List String) :
    (PendingBlock.ofLines lines).lines.toList = lines := by
  have hpush : ∀ (rest : List String) (b : PendingBlock),
      (rest.foldl PendingBlock.push b).lines.toList = b.lines.toList ++ rest := by
    intro rest
    induction rest with
    | nil => simp
    | cons line rest ih =>
      intro b
      rw [List.foldl_cons, ih]
      simp [PendingBlock.push]
  cases lines with
  | nil => rfl
  | cons first rest =>
    rw [PendingBlock.ofLines, hpush]
    rfl

theorem utf8_join (texts : List String) : utf8 (String.join texts) = texts.flatMap utf8 := by
  induction texts with
  | nil => rfl
  | cons text texts ih => rw [String.join_cons, utf8_append, ih, List.flatMap_cons]

/-- The text of a block is its lines, each ended by a newline. -/
theorem segmented_text {lines : List String} (h : ∀ line ∈ lines, IsLine line) :
    Segmented (utf8 (PendingBlock.ofLines lines).text) (lines.map utf8) [] := by
  refine ⟨?_, ?_, by simp⟩
  · rw [PendingBlock.text, PendingBlock.lines_ofLines, utf8_join, List.append_nil,
      List.flatMap_map, List.flatMap_map]
    simp only [utf8_append, utf8_newline]
  · intro stretch hstretch
    obtain ⟨line, hline, rfl⟩ := List.mem_map.1 hstretch
    rw [newlineByte_mem_utf8]
    exact (h line hline).1

theorem readLines_text {lines : List String} (h : ∀ line ∈ lines, IsLine line) :
    readLines (utf8 (PendingBlock.ofLines lines).text) = lines.map .ok := by
  rw [(segmented_text h).readLines_eq, segmentsOf, if_pos rfl, List.append_nil, List.map_map,
    List.map_map]
  exact List.map_congr_left fun line hline => lineOfSegment_line (h line hline)

/-! ## Main result -/

/-- Any bytes fall into stretches, and reading line after line answers every segment of them, in
order and once, from the segment alone: with its text less the returns and the newline at its end,
or with a report if it is no text. All calls behind that answer that the input is over. So the
lines of a block, in which no newline and no return at the end stands, come back from its text. -/
theorem answers_lines :
    (∀ bytes, ∃ ended tail, Segmented bytes ended tail) ∧
    (∀ bytes ended tail, Segmented bytes ended tail →
      List.Forall₂ AnsweredBy (segmentsOf ended tail) (readLines bytes) ∧
      ∀ n, answers n bytes = (readLines bytes ++ List.replicate n inputOver).take n) ∧
    ∀ lines, (∀ line ∈ lines, IsLine line) → ∀ n,
      answers n (utf8 (PendingBlock.ofLines lines).text) =
        (lines.map Except.ok ++ List.replicate n inputOver).take n := by
  refine ⟨exists_segmented, ?_, ?_⟩
  · intro bytes ended tail h
    exact ⟨h.forall₂_answeredBy, fun n => answers_eq_take n bytes⟩
  · intro lines h n
    rw [answers_eq_take, readLines_text h]

/-- A line with a return, bytes that are no text, an empty line and a tail; and a block with an
empty line and a return within a line. -/
theorem answers_lines_mixed :
    (List.Forall₂ AnsweredBy [[97, 13, 10], [255, 10], [10], [98]]
      (readLines [97, 13, 10, 255, 10, 10, 98]) ∧
      answers 6 [97, 13, 10, 255, 10, 10, 98] =
        (readLines [97, 13, 10, 255, 10, 10, 98] ++ List.replicate 6 inputOver).take 6) ∧
    answers 5 (utf8 (PendingBlock.ofLines ["def f():", "", "  x\r y"]).text) =
      [.ok "def f():", .ok "", .ok "  x\r y", inputOver, inputOver] := by
  have hsegmented : Segmented [97, 13, 10, 255, 10, 10, 98] [[97, 13], [255], []] [98] :=
    ⟨by decide, by decide, by decide⟩
  have h := answers_lines.2.1 _ _ _ hsegmented
  exact ⟨⟨h.1, h.2 6⟩, answers_lines.2.2 ["def f():", "", "  x\r y"] (by decide) 5⟩

end ScriptShell
