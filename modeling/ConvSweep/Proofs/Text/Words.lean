import Mathlib
import ConvSweep.Size
import ConvSweep.Text.Word

/-!
# Words, numerals and lines

A text spreads words when they stand in it in their order with blanks between them.
Every text spreads exactly one list of words, the one that is read from it.  Bytes that
are read line by line give the same words as the whole text, because a line break is a
blank and no other character has the byte of a line break.
-/

namespace ConvSweep
namespace Text

/-!
## Words
-/

def Blank (gap : List Char) : Prop :=
  ∀ c ∈ gap, isBlank c = true

/-- A piece of text before which a word ends. -/
def Parted (rest : List Char) : Prop :=
  ∀ c ∈ rest.head?, isBlank c = true

structure Letters (word : List Char) : Prop where
  ne_nil : word ≠ []
  not_blank : ∀ c ∈ word, isBlank c = false

/-- A text with the given words in their order, and blanks around them. -/
inductive Spread : List (List Char) → List Char → Prop
  | nil {gap : List Char} (hgap : Blank gap) : Spread [] gap
  | cons {gap word rest : List Char} {following : List (List Char)} (hgap : Blank gap)
      (hword : Letters word) (hparted : Parted rest) (hrest : Spread following rest) :
      Spread (word :: following) (gap ++ word ++ rest)

variable {gap word letters rest text tail : List Char} {found : List (List Char)} {c : Char}

theorem parted_nil : Parted [] := fun _ hc => by
  cases hc

theorem parted_cons (h : isBlank c = true) : Parted (c :: rest) := fun _ hc => by
  cases hc
  exact h

theorem words_blank (h : isBlank c = true) : words (c :: rest) = words rest := by
  rw [words, wordsFrom, if_pos h]
  rfl

theorem words_gap (h : Blank gap) : words (gap ++ rest) = words rest := by
  induction gap with
  | nil =>
      rfl
  | cons c gap ih =>
      rw [List.cons_append, words_blank (h c List.mem_cons_self)]
      exact ih fun c' hc' => h c' (List.mem_cons_of_mem c hc')

theorem wordsFrom_letters (h : ∀ c ∈ word, isBlank c = false) :
    wordsFrom letters (word ++ rest) = wordsFrom (word.reverse ++ letters) rest := by
  induction word generalizing letters with
  | nil =>
      rfl
  | cons c word ih =>
      have hc : ¬ isBlank c = true := by
        rw [h c List.mem_cons_self]
        exact Bool.false_ne_true
      rw [List.cons_append, wordsFrom, if_neg hc,
        ih fun c' hc' => h c' (List.mem_cons_of_mem c hc'), List.reverse_cons, List.append_assoc]
      rfl

theorem wordsFrom_parted (hletters : letters ≠ []) (h : Parted rest) :
    wordsFrom letters rest = letters.reverse :: words rest := by
  have hempty : ¬ letters.isEmpty = true := by
    rwa [List.isEmpty_iff]
  cases rest with
  | nil =>
      rw [wordsFrom, if_neg hempty]
      rfl
  | cons c rest =>
      have hc : isBlank c = true := h c rfl
      rw [wordsFrom, if_pos hc, if_neg hempty, words_blank hc]
      rfl

theorem words_word (hword : Letters word) (h : Parted rest) :
    words (word ++ rest) = word :: words rest := by
  have hreverse : word.reverse ++ [] ≠ [] := by
    simpa using hword.ne_nil
  rw [words, wordsFrom_letters hword.not_blank, wordsFrom_parted hreverse h]
  simp

/-- Words of a text stay when another text follows after a blank. -/
theorem Spread.words_append (h : Spread found text) (htail : Parted tail) :
    words (text ++ tail) = found ++ words tail := by
  induction h with
  | nil hgap =>
      exact words_gap hgap
  | @cons gap word rest following hgap hword hparted _ ih =>
      have hnext : Parted (rest ++ tail) := by
        cases rest with
        | nil =>
            exact htail
        | cons c rest =>
            exact hparted
      rw [List.append_assoc, List.append_assoc, words_gap hgap, words_word hword hnext, ih]
      rfl

theorem Spread.cons_blank (hc : isBlank c = true) (h : Spread found text) :
    Spread found (c :: text) := by
  cases h with
  | nil hgap =>
      exact .nil (List.forall_mem_cons.mpr ⟨hc, hgap⟩)
  | @cons gap word rest following hgap hword hparted hrest =>
      show Spread _ ((c :: gap) ++ word ++ rest)
      exact .cons (List.forall_mem_cons.mpr ⟨hc, hgap⟩) hword hparted hrest

theorem Spread.cons_word (hword : Letters word) (hparted : Parted rest) (h : Spread found rest) :
    Spread (word :: found) (word ++ rest) := by
  show Spread _ ([] ++ word ++ rest)
  exact .cons (List.forall_mem_nil _) hword hparted h

theorem spread_empty : Spread [] [] :=
  .nil (List.forall_mem_nil _)

/-- The letters of a word in progress belong to the first word that is found. -/
theorem spread_wordsFrom (h : ∀ c ∈ letters, isBlank c = false) (text : List Char) :
    Spread (wordsFrom letters text) (letters.reverse ++ text) := by
  have hword (hletters : letters ≠ []) : Letters letters.reverse :=
    ⟨by simpa using hletters, fun c hc => h c (List.mem_reverse.mp hc)⟩
  induction text generalizing letters with
  | nil =>
      by_cases hletters : letters = []
      · rw [hletters]
        exact spread_empty
      · rw [wordsFrom_parted hletters parted_nil]
        exact .cons_word (hword hletters) parted_nil spread_empty
  | cons c text ih =>
      by_cases hc : isBlank c = true
      · have hrest : Spread (words (c :: text)) (c :: text) := by
          rw [words_blank hc]
          exact .cons_blank hc (ih (List.forall_mem_nil _) (absurd rfl))
        by_cases hletters : letters = []
        · rw [hletters]
          exact hrest
        · rw [wordsFrom_parted hletters (parted_cons hc)]
          exact .cons_word (hword hletters) (parted_cons hc) hrest
      · have hfalse : isBlank c = false := Bool.eq_false_iff.mpr hc
        have hmore : ∀ c' ∈ c :: letters, isBlank c' = false :=
          List.forall_mem_cons.mpr ⟨hfalse, h⟩
        have hletters : Letters (c :: letters).reverse :=
          ⟨by simp, fun c' hc' => hmore c' (List.mem_reverse.mp hc')⟩
        have hspread := ih hmore fun _ => hletters
        rw [List.reverse_cons, List.append_assoc] at hspread
        rw [wordsFrom, if_neg hc]
        exact hspread

/-- Every text spreads exactly one list of words. -/
theorem words_eq_iff : words text = found ↔ Spread found text := by
  constructor
  · intro h
    cases h
    exact spread_wordsFrom (List.forall_mem_nil _) text
  · intro h
    have hwords := h.words_append parted_nil
    rwa [List.append_nil, show words [] = [] from rfl, List.append_nil] at hwords

/-!
## Numerals
-/

/-- A decimal numeral of a number below the limit: digits, with at most one plus sign before. -/
def Numeral (limit : Nat) (word : List Char) (n : Nat) : Prop :=
  ∃ digits : List Char, digits ≠ [] ∧ (∀ c ∈ digits, c.isDigit = true) ∧
    (word = digits ∨ word = '+' :: digits) ∧ Nat.ofDigitChars 10 digits 0 = n ∧ n < limit

theorem digit?_eq_some_iff {c : Char} {d : Nat} :
    digit? c = some d ↔ c.isDigit = true ∧ c.toNat - '0'.toNat = d := by
  have hdigit : ('0' ≤ c ∧ c ≤ '9') ↔ c.isDigit = true := by
    simp [Char.isDigit, Char.le_def]
  rw [digit?]
  split
  · rw [Option.some.injEq, ← hdigit]
    tauto
  · rw [← hdigit]
    simp_all

theorem digitsFrom_eq_some_iff {digits : List Char} {value n : Nat} :
    digitsFrom value digits = some n ↔
      (∀ c ∈ digits, c.isDigit = true) ∧ Nat.ofDigitChars 10 digits value = n := by
  induction digits generalizing value with
  | nil =>
      simp [digitsFrom]
  | cons c rest ih =>
      rw [digitsFrom, Option.bind_eq_bind, Option.bind_eq_some_iff, Nat.ofDigitChars_cons,
        List.forall_mem_cons, and_assoc, ← ih]
      constructor
      · rintro ⟨d, hd, hrest⟩
        rcases digit?_eq_some_iff.mp hd with ⟨hc, rfl⟩
        exact ⟨hc, hrest⟩
      · rintro ⟨hc, hrest⟩
        exact ⟨_, digit?_eq_some_iff.mpr ⟨hc, rfl⟩, hrest⟩

theorem digits?_eq_some_iff {digits : List Char} {n : Nat} :
    digits? digits = some n ↔ digits ≠ [] ∧ (∀ c ∈ digits, c.isDigit = true) ∧
      Nat.ofDigitChars 10 digits 0 = n := by
  cases digits with
  | nil =>
      simp [digits?]
  | cons c rest =>
      rw [digits?, digitsFrom_eq_some_iff]
      simp

theorem below_eq_some_iff {limit n : Nat} {found? : Option Nat} :
    (do let n ← found?; if n < limit then some n else none) = some n ↔
      found? = some n ∧ n < limit := by
  rw [Option.bind_eq_bind, Option.bind_eq_some_iff]
  constructor
  · rintro ⟨m, hm, h⟩
    rw [Option.ite_none_right_eq_some] at h
    rcases h with ⟨hlt, hn⟩
    cases hn
    exact ⟨hm, hlt⟩
  · rintro ⟨hn, hlt⟩
    exact ⟨n, hn, if_pos hlt⟩

theorem natural?_eq_some_iff {limit n : Nat} :
    natural? limit word = some n ↔ Numeral limit word n := by
  by_cases hplus : ∃ digits, word = '+' :: digits
  · rcases hplus with ⟨digits, rfl⟩
    show (do let n ← digits? digits; if n < limit then some n else none) = some n ↔ _
    rw [below_eq_some_iff, digits?_eq_some_iff]
    constructor
    · rintro ⟨⟨hne, hdigits, hvalue⟩, hlt⟩
      exact ⟨digits, hne, hdigits, .inr rfl, hvalue, hlt⟩
    · rintro ⟨others, hne, hdigits, hword | hword, hvalue, hlt⟩
      · exact absurd (hdigits '+' (hword ▸ List.mem_cons_self)) (by decide)
      · cases hword
        exact ⟨⟨hne, hdigits, hvalue⟩, hlt⟩
  · have hnatural : natural? limit word =
        (do let n ← digits? word; if n < limit then some n else none) := by
      unfold natural?
      split
      · exact absurd ⟨_, rfl⟩ hplus
      · rfl
    rw [hnatural, below_eq_some_iff, digits?_eq_some_iff]
    constructor
    · rintro ⟨⟨hne, hdigits, hvalue⟩, hlt⟩
      exact ⟨word, hne, hdigits, .inl rfl, hvalue, hlt⟩
    · rintro ⟨others, hne, hdigits, rfl | hword, hvalue, hlt⟩
      · exact ⟨⟨hne, hdigits, hvalue⟩, hlt⟩
      · exact absurd ⟨others, hword⟩ hplus

theorem numeral_repr {limit n : Nat} (h : n < limit) : Numeral limit n.repr.toList n := by
  rw [Nat.repr_eq_ofList_toDigits, String.toList_ofList]
  exact ⟨_, Nat.toDigits_ne_nil, fun c hc => Nat.isDigit_of_mem_toDigits (by decide) (by decide) hc,
    .inl rfl, Nat.ofDigitChars_ten_toDigits, h⟩

/-!
## Lines
-/

/-- The characters of bytes in UTF-8. -/
def textOf (bytes : List UInt8) : Option (List Char) :=
  (String.fromUTF8? ⟨bytes.toArray⟩).map String.toList

/-- The text without a carriage return at its end. -/
def chomp (line : List Char) : List Char :=
  if line.getLast? = some '\r' then line.dropLast else line

/-- The words of lines that are read one after the other; a line ends before a line break. -/
def lineWords : List (List UInt8) → Option (List (List Char))
  | [] => some []
  | [line] => (textOf line).map words
  | line :: rest => do return words (chomp (← textOf line)) ++ (← lineWords rest)

theorem fromUTF8?_eq_some_iff {bytes : ByteArray} {s : String} :
    String.fromUTF8? bytes = some s ↔ bytes = s.toByteArray := by
  rw [String.fromUTF8?, Option.dite_none_right_eq_some]
  constructor
  · rintro ⟨_, hs⟩
    cases hs
    rfl
  · rintro rfl
    exact ⟨s.isValidUTF8, rfl⟩

theorem textOf_eq_some_iff {bytes : List UInt8} :
    textOf bytes = some text ↔ bytes = text.flatMap String.utf8EncodeChar := by
  have hencode (s : String) : (⟨bytes.toArray⟩ : ByteArray) = s.toByteArray ↔
      bytes = s.toList.flatMap String.utf8EncodeChar := by
    rw [← String.utf8Encode_toList, List.utf8Encode, ByteArray.ext_iff, List.data_toByteArray,
      ← Array.toList_inj]
  rw [textOf, Option.map_eq_some_iff]
  constructor
  · rintro ⟨s, hs, rfl⟩
    exact (hencode s).mp (fromUTF8?_eq_some_iff.mp hs)
  · intro h
    refine ⟨String.ofList text, fromUTF8?_eq_some_iff.mpr ((hencode _).mpr ?_),
      String.toList_ofList⟩
    rwa [String.toList_ofList]

theorem utf8EncodeChar_newline : String.utf8EncodeChar '\n' = [10] := by
  decide

/-- The byte of a line break is in no other character. -/
theorem newline_of_utf8EncodeChar {before after : List UInt8}
    (h : String.utf8EncodeChar c = before ++ 10 :: after) :
    c = '\n' ∧ before = [] ∧ after = [] := by
  have hindex : before.length < (String.utf8EncodeChar c).length := by
    rw [h, List.length_append, List.length_cons]
    omega
  have hbyte : (String.utf8EncodeChar c)[before.length] = 10 := by
    simp only [h, List.getElem_append_right (Nat.le_refl _), Nat.sub_self, List.getElem_cons_zero]
  have hfirst : (String.utf8EncodeChar c)[before.length].IsUTF8FirstByte := by
    rw [hbyte]
    exact .inl rfl
  have hbefore : before = [] :=
    List.length_eq_zero_iff.mp (UInt8.isUTF8FirstByte_getElem_utf8EncodeChar.mp hfirst)
  rw [hbefore, List.nil_append] at h
  have hnewline : (['\n'] : List Char).utf8Encode ++ after.toByteArray = [c].utf8Encode := by
    rw [List.utf8Encode_singleton, List.utf8Encode_singleton, utf8EncodeChar_newline, h]
    exact (List.toByteArray_append).symm
  rcases List.isPrefix_of_utf8Encode_append_eq_utf8Encode _ hnewline with ⟨t, ht⟩
  cases ht
  rw [utf8EncodeChar_newline] at h
  exact ⟨rfl, hbefore, (List.cons.inj h).2.symm⟩

/-- A line break parts a text in two. -/
theorem textOf_append_newline {before after : List UInt8} :
    textOf (before ++ 10 :: after) = some text ↔ ∃ s t, text = s ++ '\n' :: t ∧
      textOf before = some s ∧ textOf after = some t := by
  simp only [textOf_eq_some_iff]
  constructor
  · intro h
    induction text generalizing before with
    | nil =>
        simp at h
    | cons c text ih =>
        have hlater {others : List UInt8} (hbefore : before = String.utf8EncodeChar c ++ others)
            (hrest : text.flatMap String.utf8EncodeChar = others ++ 10 :: after) :
            ∃ s t, c :: text = s ++ '\n' :: t ∧ before = s.flatMap String.utf8EncodeChar ∧
              after = t.flatMap String.utf8EncodeChar := by
          rcases ih hrest.symm with ⟨s, t, rfl, rfl, rfl⟩
          exact ⟨c :: s, t, rfl, by rw [hbefore, List.flatMap_cons], rfl⟩
        rw [List.flatMap_cons] at h
        rcases List.append_eq_append_iff.mp h.symm with
          ⟨others, hbefore, hrest⟩ | ⟨others, hchar, hrest⟩
        · exact hlater hbefore hrest
        · cases others with
          | nil =>
              have hbefore : before = String.utf8EncodeChar c ++ [] := by
                rw [hchar, List.append_nil, List.append_nil]
              exact hlater hbefore hrest.symm
          | cons b others =>
              rcases List.cons.inj hrest with ⟨rfl, hafter⟩
              rcases newline_of_utf8EncodeChar hchar with ⟨rfl, rfl, rfl⟩
              exact ⟨[], text, rfl, rfl, hafter⟩
  · rintro ⟨s, t, rfl, rfl, rfl⟩
    rw [List.flatMap_append, List.flatMap_cons, utf8EncodeChar_newline]
    rfl

theorem textOf_line {before after : List UInt8} : textOf (before ++ 10 :: after) =
    (textOf before).bind fun s => (textOf after).map fun t => s ++ '\n' :: t := by
  apply Option.ext
  intro text
  rw [textOf_append_newline, Option.bind_eq_some_iff]
  simp only [Option.map_eq_some_iff]
  constructor
  · rintro ⟨s, t, rfl, hs, ht⟩
    exact ⟨s, hs, t, ht, rfl⟩
  · rintro ⟨s, hs, t, ht, rfl⟩
    exact ⟨s, t, rfl, hs, ht⟩

theorem words_append_blank {s t : List Char} (h : isBlank c = true) :
    words (s ++ c :: t) = words s ++ words t := by
  rw [(words_eq_iff.mp rfl : Spread (words s) s).words_append (parted_cons h), words_blank h]

theorem words_chomp {line : List Char} : words (chomp line) = words line := by
  rw [chomp]
  split
  · rename_i hlast
    rcases List.getLast?_eq_some_iff.mp hlast with ⟨before, rfl⟩
    rw [List.dropLast_concat, words_append_blank rfl]
    exact (List.append_nil _).symm
  · rfl

/-- Read line by line, the bytes have the words of the whole text. -/
theorem lineWords_intercalate {lines : List (List UInt8)} (h : lines ≠ []) :
    lineWords lines = (textOf ([10].intercalate lines)).map words := by
  induction lines with
  | nil =>
      exact absurd rfl h
  | cons line rest ih =>
      cases rest with
      | nil =>
          rw [lineWords, List.intercalate_singleton]
      | cons line' rest =>
          have hjoin : [10].intercalate (line :: line' :: rest) =
              line ++ 10 :: [10].intercalate (line' :: rest) := by
            simp [List.intercalate]
          rw [lineWords, ih (List.cons_ne_nil _ _), hjoin, textOf_line]
          · cases textOf line with
            | none =>
                rfl
            | some s =>
                cases textOf ([10].intercalate (line' :: rest)) with
                | none =>
                    rfl
                | some t =>
                    show some (words (chomp s) ++ words t) = some (words (s ++ '\n' :: t))
                    rw [words_chomp, words_append_blank rfl]
          · exact List.cons_ne_nil _ _

end Text
end ConvSweep
