import DerivationCache.Metrics.Exposition
import Mathlib.Data.List.Basic

/-!
# Reading an exposition back

The text of a reading is known in advance but for its eleven values. So whatever the family is, and
even if it looks like a piece of an exposition itself, a reader finds its way: it takes off the
label of the first sample, reads a number up to the end of the line, and goes on with the next
label. `Exposition.decode` is this reader. It accepts the texts of lists of readings, and nothing
else.

A sink that runs full takes the front of what is written to it. No later line gets in where an
earlier one was cut off.

## Main results

* `Exposition.readValue_eq_some_iff`: a number is read from its digits alone, without leading zeros.
* `Exposition.decode_eq_some_iff`: what is read is what was written.
* `Sink.foldl_writeLine_bounded`: what a sink with a bound takes.
* `exposition_decodes`: both, for the exposition of any list of readings.
-/

namespace DerivationCache.Metrics

namespace Exposition

/-! ### Numbers -/

/-- The digits of a number are no line break. -/
theorem newline_not_mem_toDigits (n : Nat) : '\n' ∉ Nat.toDigits 10 n := by
  intro h
  have hdigit : '\n'.isDigit = true := Nat.isDigit_of_mem_toDigits (by decide) (by decide) h
  exact absurd hdigit (by decide)

/-- Reads a number and the end of its line. It is read if it is written as numbers are. -/
def readValue (text : List Char) : Option (UInt64 × List Char) :=
  match text.dropWhile (· != '\n') with
  | [] => none
  | _ :: rest =>
    let digits := text.takeWhile (· != '\n')
    let value := UInt64.ofNat (Nat.ofDigitChars 10 digits 0)
    if Nat.toDigits 10 value.toNat = digits then some (value, rest) else none

/-- A number is read from its digits and the end of the line, and from nothing else. -/
theorem readValue_eq_some_iff {text rest : List Char} {value : UInt64} :
    readValue text = some (value, rest) ↔
      text = Nat.toDigits 10 value.toNat ++ '\n' :: rest := by
  constructor
  · intro h
    rw [readValue] at h
    split at h
    · simp at h
    · rename_i c tail hdrop
      dsimp only at h
      split at h
      · rename_i hdigits
        obtain ⟨rfl, rfl⟩ := Prod.mk.inj (Option.some.inj h)
        have hc : c = '\n' := by
          have hhead := List.head?_dropWhile_not (· != '\n') text
          rw [hdrop] at hhead
          simpa using hhead
        rw [hdigits, ← hc, ← hdrop, hc, List.takeWhile_append_dropWhile]
      · simp at h
  · rintro rfl
    have hdigits : ∀ c ∈ Nat.toDigits 10 value.toNat, (c != '\n') = true := fun c hc => by
      rw [bne_iff_ne]
      rintro rfl
      exact newline_not_mem_toDigits _ hc
    have hdrop : (Nat.toDigits 10 value.toNat ++ '\n' :: rest).dropWhile (· != '\n') =
        '\n' :: rest := by
      rw [List.dropWhile_append_of_pos hdigits, List.dropWhile_cons, if_neg (by decide)]
    have htake : (Nat.toDigits 10 value.toNat ++ '\n' :: rest).takeWhile (· != '\n') =
        Nat.toDigits 10 value.toNat := by
      rw [List.takeWhile_append_of_pos hdigits, List.takeWhile_cons, if_neg (by decide),
        List.append_nil]
    simp only [readValue, hdrop, htake, Nat.ofDigitChars_ten_toDigits, UInt64.ofNat_toNat, if_true]

/-! ### Samples -/

/-- The label of a sample: its type line, and its value line up to the value. -/
def label (family : String) (kind : Kind) (suffix : String) : String :=
  let name := sampleName family suffix
  "# TYPE " ++ name ++ " " ++ kind.word ++ "\n" ++ name ++ " "

/-- A sample is written as its label, the digits of its value and the end of the line. -/
theorem join_lines (family : String) (s : Sample) : String.join (s.lines family) =
    label family s.kind s.suffix ++ (Nat.repr s.value.toNat ++ "\n") := by
  simp only [Sample.lines, label, String.join_cons, String.join_nil, String.append_assoc,
    String.append_empty]

/-- What is known in advance of a sample. -/
def Sample.heading (s : Sample) : Kind × String := (s.kind, s.suffix)

/-- Reads the samples with these headings. -/
def readSamples (family : String) : List (Kind × String) → List Char →
    Option (List Sample × List Char)
  | [], text => some ([], text)
  | (kind, suffix) :: headings, text => do
    let text ← text.dropPrefix? (label family kind suffix).toList
    let (value, text) ← readValue text
    let (samples, text) ← readSamples family headings text
    return (⟨kind, suffix, value⟩ :: samples, text)

/-- What a sample is written as, character by character. -/
theorem toList_sample (family : String) (s : Sample) (rest : List Char) :
    (String.join (s.lines family)).toList ++ rest = (label family s.kind s.suffix).toList ++
      (Nat.toDigits 10 s.value.toNat ++ '\n' :: rest) := by
  rw [join_lines, String.toList_append, String.toList_append, Nat.toList_repr, List.append_assoc,
    List.append_assoc]
  rfl

/-- Samples are read from their lines, and from nothing else. -/
theorem readSamples_eq_some_iff {family : String} {headings : List (Kind × String)}
    {text rest : List Char} {l : List Sample} :
    readSamples family headings text = some (l, rest) ↔ l.map Sample.heading = headings ∧
      text = (String.join (l.flatMap (Sample.lines family))).toList ++ rest := by
  induction headings generalizing text l with
  | nil =>
      rw [readSamples]
      constructor
      · intro h
        obtain ⟨rfl, rfl⟩ := Prod.mk.inj (Option.some.inj h)
        exact ⟨rfl, rfl⟩
      · rintro ⟨hl, rfl⟩
        obtain rfl := List.map_eq_nil_iff.1 hl
        rfl
  | cons heading headings ih =>
      obtain ⟨kind, suffix⟩ := heading
      simp only [readSamples, bind, Option.bind_eq_some_iff, List.dropPrefix?_eq_some_iff,
        beq_iff_eq, Option.pure_def, Option.some.injEq, Prod.mk.injEq]
      constructor
      · rintro ⟨text₁, ⟨_, rfl, rfl⟩, ⟨value, text₂⟩, hvalue, ⟨l, text₃⟩, hl, rfl, rfl⟩
        obtain ⟨rfl, rfl⟩ := ih.1 hl
        obtain rfl := readValue_eq_some_iff.1 hvalue
        refine ⟨rfl, ?_⟩
        rw [List.flatMap_cons, String.join_append, String.toList_append, List.append_assoc,
          toList_sample]
      · rintro ⟨hheadings, rfl⟩
        obtain ⟨s, l, rfl, hs, hl⟩ := List.map_eq_cons_iff.1 hheadings
        obtain ⟨rfl, rfl⟩ := Prod.mk.inj hs
        rw [List.flatMap_cons, String.join_append, String.toList_append, List.append_assoc,
          toList_sample]
        exact ⟨_, ⟨_, rfl, rfl⟩, ⟨_, _⟩, readValue_eq_some_iff.2 rfl, ⟨_, _⟩, ih.2 ⟨hl, rfl⟩, rfl,
          rfl⟩

/-! ### Readings -/

/-- The headings of the samples of a reading. -/
def headings : List (Kind × String) := (samples {}).map Sample.heading

/-- The reading with these samples. -/
def ofSamples : List Sample → Option Snapshot
  | [getCalls, getHits, getMisses, passes, builderInvocations, placeholdersIssued, commits,
      commitConflicts, failureReplays, cacheLen, failuresLen] =>
    some {
      getCalls := getCalls.value
      getHits := getHits.value
      getMisses := getMisses.value
      passes := passes.value
      builderInvocations := builderInvocations.value
      placeholdersIssued := placeholdersIssued.value
      commits := commits.value
      commitConflicts := commitConflicts.value
      failureReplays := failureReplays.value
      cacheLen := cacheLen.value
      failuresLen := failuresLen.value }
  | _ => none

/-- A sample is determined by its heading and its value. -/
theorem Sample.eq_iff {s t : Sample} : s = t ↔ s.heading = t.heading ∧ s.value = t.value := by
  obtain ⟨kind, suffix, value⟩ := s
  obtain ⟨kind', suffix', value'⟩ := t
  simp [heading, and_assoc]

/-- The samples of a reading are known from their values. -/
theorem ofSamples_eq_some_iff {l : List Sample} {s : Snapshot}
    (h : l.map Sample.heading = headings) : ofSamples l = some s ↔ l = samples s := by
  constructor
  · intro hs
    unfold ofSamples at hs
    split at hs
    · obtain rfl := Option.some.inj hs
      simpa only [headings, samples, List.map_cons, List.map_nil, List.cons.injEq, and_true,
        Sample.eq_iff, Sample.heading] using h
    · simp at hs
  · rintro rfl
    rfl

/-- Reads one reading. -/
def readSnapshot (family : String) (text : List Char) : Option (Snapshot × List Char) := do
  let (l, text) ← readSamples family headings text
  let s ← ofSamples l
  return (s, text)

/-- A reading is read from its lines, and from nothing else. -/
theorem readSnapshot_eq_some_iff {family : String} {text rest : List Char} {s : Snapshot} :
    readSnapshot family text = some (s, rest) ↔
      text = (String.join (lines family s)).toList ++ rest := by
  simp only [readSnapshot, bind, Option.bind_eq_some_iff, Option.pure_def, Option.some.injEq,
    Prod.mk.injEq]
  constructor
  · rintro ⟨⟨l, text'⟩, hl, s, hs, rfl, rfl⟩
    obtain ⟨hheadings, rfl⟩ := readSamples_eq_some_iff.1 hl
    obtain rfl := (ofSamples_eq_some_iff hheadings).1 hs
    rw [lines]
  · intro htext
    have hl : readSamples family headings text = some (samples s, rest) :=
      readSamples_eq_some_iff.2 ⟨rfl, by rw [htext, lines]⟩
    exact ⟨_, hl, s, rfl, rfl, rfl⟩

/-- The lines of a reading are not empty. -/
theorem toList_lines_ne_nil (family : String) (s : Snapshot) :
    (String.join (lines family s)).toList ≠ [] := by
  rw [lines, samples, List.flatMap_cons, String.join_append, join_lines]
  simp [label]

/-- Text is used up by every reading. -/
theorem length_lt_of_readSnapshot {family : String} {text rest : List Char} {s : Snapshot}
    (h : readSnapshot family text = some (s, rest)) : rest.length < text.length := by
  rw [readSnapshot_eq_some_iff.1 h, List.length_append]
  exact Nat.lt_add_of_pos_left (List.length_pos_of_ne_nil (toList_lines_ne_nil family s))

/-- Reads one reading after another, up to the end of the text. -/
def readAll (family : String) (text : List Char) : Option (List Snapshot) :=
  if text = [] then some []
  else
    match h : readSnapshot family text with
    | none => none
    | some (s, rest) =>
      have : rest.length < text.length := length_lt_of_readSnapshot h
      (readAll family rest).map (s :: ·)
termination_by text.length

/-- The readings that a text is the exposition of. -/
def decode (family text : String) : Option (List Snapshot) := readAll family text.toList

/-- The exposition of a list goes on with the exposition of the rest. -/
theorem text_append (family : String) (l l' : List Snapshot) :
    text family (l ++ l') = text family l ++ text family l' := by
  rw [text, List.flatMap_append, String.join_append]
  rfl

/-- The exposition of the first reading comes first. -/
theorem text_cons (family : String) (s : Snapshot) (l : List Snapshot) :
    text family (s :: l) = String.join (lines family s) ++ text family l := by
  rw [text, List.flatMap_cons, String.join_append]
  rfl

/-- Exactly the exposition of a list is read as that list. -/
theorem readAll_eq_some_iff {family : String} {t : List Char} {l : List Snapshot} :
    readAll family t = some l ↔ t = (text family l).toList := by
  constructor
  · intro h
    fun_induction readAll family t generalizing l with
    | case1 =>
        obtain rfl := Option.some.inj h
        rfl
    | case2 => simp at h
    | case3 t hne s rest hs hlt ih =>
        obtain ⟨l, hl, rfl⟩ := Option.map_eq_some_iff.1 h
        rw [readSnapshot_eq_some_iff.1 hs, text_cons, String.toList_append, ← ih hl]
  · rintro rfl
    induction l with
    | nil => simp [readAll, text]
    | cons s l ih =>
        have hread : readSnapshot family (text family (s :: l)).toList =
            some (s, (text family l).toList) :=
          readSnapshot_eq_some_iff.2 (by rw [text_cons, String.toList_append])
        have hne : (text family (s :: l)).toList ≠ [] := by
          rw [text_cons, String.toList_append]
          exact List.append_ne_nil_of_left_ne_nil (toList_lines_ne_nil family s) _
        rw [readAll, if_neg hne]
        split
        · rename_i hnone
          simp [hread] at hnone
        · rename_i s' rest hsome
          obtain ⟨rfl, rfl⟩ := Prod.mk.inj (Option.some.inj (hread.symm.trans hsome))
          rw [ih]
          rfl

/-- What is read is what was written. -/
theorem decode_eq_some_iff {family t : String} {l : List Snapshot} :
    decode family t = some l ↔ t = text family l := by
  rw [decode, readAll_eq_some_iff, String.toList_inj]

end Exposition

/-! ### Sinks -/

/-- The bytes of a text, one after another. -/
theorem toList_byteArray (bytes : ByteArray) : bytes.toList = bytes.data.toList := by
  have hloop (i : Nat) (front : List UInt8) : ByteArray.toList.loop bytes i front =
      front.reverse ++ bytes.data.toList.drop i := by
    induction i, front using ByteArray.toList.loop.induct bytes with
    | case1 i front hi ih =>
        have hlength : i < bytes.data.toList.length := hi
        have hget : bytes.get! i = bytes.data.toList[i] := by
          rw [Array.getElem_toList]
          exact getElem!_pos bytes.data i hi
        rw [ByteArray.toList.loop, if_pos hi, ih, List.drop_eq_getElem_cons hlength, hget,
          List.reverse_cons, List.append_assoc]
        rfl
    | case2 i front hi =>
        have hlength : bytes.data.toList.length ≤ i := Nat.not_lt.1 hi
        rw [ByteArray.toList.loop, if_neg hi, List.drop_eq_nil_of_le hlength, List.append_nil]
  rw [ByteArray.toList, hloop]
  rfl

/-- The bytes of two texts, one after the other. -/
theorem toList_toUTF8_append (s t : String) :
    (s ++ t).toUTF8.toList = s.toUTF8.toList ++ t.toUTF8.toList := by
  rw [toList_byteArray, toList_byteArray, toList_byteArray, String.toUTF8, String.toUTF8,
    String.toUTF8, String.toByteArray_append, ByteArray.data_append, Array.toList_append]

namespace Sink

/-- A sink with a bound takes the front of what is written to it, and as much of it as fits. -/
theorem foldl_writeLine_bounded (lines : List String) (written : List UInt8) (room : Nat) :
    lines.foldl writeLine { written, room := some room } =
      { written := written ++ (String.join lines).toUTF8.toList.take room
        room := some (room - (String.join lines).toUTF8.toList.length) } := by
  induction lines generalizing written room with
  | nil =>
      rw [List.foldl_nil, String.join_nil, toList_byteArray]
      simp
  | cons line lines ih =>
      rw [List.foldl_cons, writeLine, offer]
      dsimp only
      rw [ih, String.join_cons, toList_toUTF8_append, List.take_append, List.append_assoc,
        List.length_append, Nat.sub_sub]

/-- A sink without a bound takes all that is written to it. -/
theorem foldl_writeLine_unbounded (lines : List String) (written : List UInt8) :
    lines.foldl writeLine { written } =
      { written := written ++ (String.join lines).toUTF8.toList } := by
  induction lines generalizing written with
  | nil =>
      rw [List.foldl_nil, String.join_nil, toList_byteArray]
      simp
  | cons line lines ih =>
      rw [List.foldl_cons, writeLine, offer]
      dsimp only
      rw [ih, String.join_cons, toList_toUTF8_append, List.append_assoc]

end Sink

open Exposition

/-- The exposition of a list of readings can be read back, whatever the family is: `decode` gives
the list with all fields of all its readings for this text, and for no other text. So no two lists
have the same exposition. The exposition of a list is made up of the expositions of its readings.

What is written to a sink is the exposition, and a sink that takes no more than so many bytes has
taken exactly the first so many bytes of it in the end. -/
theorem exposition_decodes (family : String) :
    (∀ t l, decode family t = some l ↔ t = text family l) ∧
    Function.Injective (text family) ∧
    (∀ l, text family l = String.join (l.map fun s => text family [s])) ∧
    (∀ l, (Sink.writeAll family {} l).written = (text family l).toUTF8.toList) ∧
    ∀ l n, (Sink.writeAll family { room := some n } l).written =
      (text family l).toUTF8.toList.take n := by
  refine ⟨fun t l => decode_eq_some_iff, fun l l' h => ?_, fun l => ?_, fun l => ?_, fun l n => ?_⟩
  · have hread : decode family (text family l) = some l := decode_eq_some_iff.2 rfl
    have hread' : decode family (text family l) = some l' := decode_eq_some_iff.2 h
    exact Option.some.inj (hread.symm.trans hread')
  · induction l with
    | nil => rfl
    | cons s l ih =>
        rw [List.map_cons, String.join_cons, ← ih, ← text_append, List.singleton_append]
  · rw [Sink.writeAll, Sink.foldl_writeLine_unbounded]
    rfl
  · rw [Sink.writeAll, Sink.foldl_writeLine_bounded]
    rfl

end DerivationCache.Metrics
