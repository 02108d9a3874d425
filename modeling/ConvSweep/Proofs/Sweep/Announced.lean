import Mathlib
import ConvSweep.Proofs.Descriptor

/-!
# Announced cases

The first word of a descriptor announces how many cases follow.  When the words run
out before the last of them, the field that the next word would have supplied is
reported as missing, unless an earlier word or case offends.  So a count that the
words cannot serve is never accepted.

The storage for the cases is asked for before the first of them is read.  A count
whose cases would fill more bytes than can be asked for therefore stops the reading
with a fault, whatever follows it, and also when nothing does.
-/

namespace ConvSweep
namespace Descriptor

open Text

variable {n index : Nat} {words rest following : List (List Char)} {word : List Char}
  {field : DescriptorField} {shapes : List FilterShape}

/-!
## Words that run out
-/

/-- The axes of a case in the order of their words. -/
def axes : List FilterAxis :=
  [.outChannels, .inChannels, .kernelRows, .kernelCols]

/-- The field that is supplied by the word after `k` others. -/
def fieldAfter (k : Nat) : DescriptorField :=
  .extent (k / 4) (axes.getD (k % 4) default)

/-- The words are numerals, they end within an announced case and the cases before it are
admissible. -/
inductive RunsOut (n : Nat) : List (List Char) → Prop
  | mk {words rest : List (List Char)} {shapes : List FilterShape}
      (hspells : Spells shapes words rest) (hrest : ∀ word ∈ rest, IsNumeral word)
      (hlength : rest.length < 4) (hmore : shapes.length < n) : RunsOut n words

theorem runsOut_nil (h : 0 < n) : RunsOut n [] :=
  .mk spells_nil (List.forall_mem_nil _) (Nat.succ_pos 3) h

theorem Spells.length_eq (h : Spells shapes words rest) :
    words.length = 4 * shapes.length + rest.length := by
  rcases h with ⟨extents, rfl, hnames, _⟩
  rw [List.length_append, hnames.length_eq, length_flatMap_dims]

/-- A field of a case is found by the number of words before it. -/
theorem getElem?_caseFields {k : Nat} :
    (caseFields index)[k]? = some field ↔ k < 4 ∧ field = fieldAfter (4 * index + k) := by
  constructor
  · intro h
    have hlt : k < 4 := (List.getElem?_eq_some_iff.mp h).1
    refine ⟨hlt, ?_⟩
    have hindex : (4 * index + k) / 4 = index := by omega
    have haxis : (4 * index + k) % 4 = k := by omega
    rw [fieldAfter, hindex, haxis]
    interval_cases k <;> exact (Option.some.inj h).symm
  · rintro ⟨hlt, rfl⟩
    have hindex : (4 * index + k) / 4 = index := by omega
    have haxis : (4 * index + k) % 4 = k := by omega
    rw [fieldAfter, hindex, haxis]
    interval_cases k <;> rfl

theorem caseOffence_missing_iff : CaseOffence index words (.missing field) ↔
    (∀ word ∈ words, IsNumeral word) ∧ words.length < 4 ∧
      field = fieldAfter (4 * index + words.length) := by
  rw [← getElem?_caseFields]
  constructor
  · intro h
    cases h with
    | missing hwords hfield =>
        exact ⟨hwords, hfield⟩
  · rintro ⟨hwords, hfield⟩
    exact .missing hwords hfield

/-- Words that run out are reported by the field after the last of them. -/
theorem readCases_missing_iff : readCases 0 words n = .error (.missing field) ↔
    RunsOut n words ∧ field = fieldAfter words.length := by
  rw [readCases_eq_error_iff]
  simp only [Nat.zero_add, caseOffence_missing_iff]
  constructor
  · rintro ⟨earlier, rest, hmore, hspells, hrest, hlength, rfl⟩
    exact ⟨.mk hspells hrest hlength hmore, by rw [hspells.length_eq]⟩
  · rintro ⟨⟨hspells, hrest, hlength, hmore⟩, rfl⟩
    exact ⟨_, _, hmore, hspells, hrest, hlength, by rw [hspells.length_eq]⟩

/-- Cases that lack words are not accepted. -/
theorem readCases_of_short (h : words.length < 4 * n) :
    ∃ cause, readCases 0 words n = .error cause := by
  cases hread : readCases 0 words n with
  | error cause =>
      exact ⟨cause, rfl⟩
  | ok shapes =>
      rcases readCases_eq_ok_iff.mp hread with ⟨rfl, rest, hspells⟩
      have hlength := hspells.length_eq
      omega

/-!
## Storage
-/

/-- The greatest number of bytes that storage can be asked for. -/
def byteLimit : Nat := 0x7fffffffffffffff

/-- A case is stored in four words of eight bytes each. -/
theorem lt_caseLimit_iff : n < caseLimit ↔ 32 * n ≤ byteLimit := by
  rw [caseLimit, byteLimit]
  omega

theorem ofWords_of_storable (hcount : Names word n) (h : 32 * n ≤ byteLimit) :
    ofWords (word :: following) =
      (readCases 0 following n).mapError fun e => .error (.descriptor e) := by
  rw [ofWords_names hcount, if_pos (lt_caseLimit_iff.mpr h)]

theorem ofWords_of_not_storable (hcount : Names word n) (h : byteLimit < 32 * n) :
    ofWords (word :: following) = .error (.fault .capacity) := by
  rw [ofWords_names hcount, if_neg (lt_caseLimit_iff.not.mpr (Nat.not_le.mpr h))]

theorem ofWords_missing_iff (hcount : Names word n) :
    ofWords (word :: following) = .error (.error (.descriptor (.missing field))) ↔
      32 * n ≤ byteLimit ∧ RunsOut n following ∧ field = fieldAfter following.length := by
  rcases Nat.lt_or_ge byteLimit (32 * n) with hlarge | hstorable
  · rw [ofWords_of_not_storable hcount hlarge]
    constructor
    · intro h
      cases h
    · rintro ⟨hstorable, _⟩
      exact absurd hstorable (Nat.not_le.mpr hlarge)
  · rw [ofWords_of_storable hcount hstorable, mapError_eq_error_iff, ← readCases_missing_iff]
    constructor
    · rintro ⟨cause, hread, hcause⟩
      cases hcause
      exact ⟨hstorable, hread⟩
    · rintro ⟨_, hread⟩
      exact ⟨_, hread, rfl⟩

/-!
## Counts
-/

/-- How the number of announced cases takes part in the answer. -/
structure Announces (words : List (List Char)) (answer : Outcome (List FilterShape)) : Prop where
  outcome : (∃ shapes, answer = .ok shapes) ∨
    (∃ cause, answer = .error (.error (.descriptor cause))) ∨ answer = .error (.fault .capacity)
  fault_iff : answer = .error (.fault .capacity) ↔
    ∃ word following n, words = word :: following ∧ Names word n ∧ byteLimit < 32 * n
  /-- Too few words are an error of the descriptor. -/
  short : ∀ word following n, words = word :: following → Names word n → 32 * n ≤ byteLimit →
    following.length < 4 * n → ∃ cause, answer = .error (.error (.descriptor cause))
  missing_iff : ∀ field, answer = .error (.error (.descriptor (.missing field))) ↔
    (words = [] ∧ field = .caseCount) ∨
      ∃ word following n, words = word :: following ∧ Names word n ∧ 32 * n ≤ byteLimit ∧
        RunsOut n following ∧ field = fieldAfter following.length

theorem announces_nil : Announces [] (ofWords []) where
  outcome := .inr (.inl ⟨_, rfl⟩)
  fault_iff := by
    constructor
    · intro h
      cases h
    · rintro ⟨_, _, _, hwords, _⟩
      cases hwords
  short _ _ _ hwords := by
    cases hwords
  missing_iff field := by
    constructor
    · intro h
      cases h
      exact .inl ⟨rfl, rfl⟩
    · rintro (⟨_, rfl⟩ | ⟨_, _, _, hwords, _⟩)
      · rfl
      · cases hwords

theorem announces_other (h : ¬ IsNumeral word) :
    Announces (word :: following) (ofWords (word :: following)) := by
  rw [ofWords_other h]
  constructor
  case outcome =>
    exact .inr (.inl ⟨_, rfl⟩)
  case fault_iff =>
    constructor
    · intro hfault
      cases hfault
    · rintro ⟨_, _, _, hwords, hcount, _⟩
      cases hwords
      exact absurd ⟨_, hcount⟩ h
  case short =>
    intro _ _ _ _ _ _ _
    exact ⟨_, rfl⟩
  case missing_iff =>
    intro field
    constructor
    · intro hmissing
      cases hmissing
    · rintro (⟨hwords, _⟩ | ⟨_, _, _, hwords, hcount, _⟩)
      · cases hwords
      · cases hwords
        exact absurd ⟨_, hcount⟩ h

theorem announces_names (hcount : Names word n) :
    Announces (word :: following) (ofWords (word :: following)) where
  outcome := by
    rcases Nat.lt_or_ge byteLimit (32 * n) with hlarge | hstorable
    · exact .inr (.inr (ofWords_of_not_storable hcount hlarge))
    · rw [ofWords_of_storable hcount hstorable]
      cases readCases 0 following n with
      | error cause =>
          exact .inr (.inl ⟨cause, rfl⟩)
      | ok shapes =>
          exact .inl ⟨shapes, rfl⟩
  fault_iff := by
    constructor
    · intro hfault
      refine ⟨word, following, n, rfl, hcount, ?_⟩
      by_contra hstorable
      rw [ofWords_of_storable hcount (Nat.not_lt.mp hstorable), mapError_eq_error_iff] at hfault
      rcases hfault with ⟨_, _, hfault⟩
      cases hfault
    · rintro ⟨_, _, _, hwords, hcount', hlarge⟩
      cases hwords
      exact ofWords_of_not_storable hcount' hlarge
  short _ _ _ hwords hcount' hstorable hshort := by
    cases hwords
    rcases readCases_of_short hshort with ⟨cause, hread⟩
    rw [ofWords_of_storable hcount' hstorable, hread]
    exact ⟨cause, rfl⟩
  missing_iff field := by
    rw [ofWords_missing_iff hcount]
    constructor
    · rintro ⟨hstorable, hrunsOut, hfield⟩
      exact .inr ⟨word, following, n, rfl, hcount, hstorable, hrunsOut, hfield⟩
    · rintro (⟨hwords, _⟩ | ⟨_, _, _, hwords, hcount', hstorable, hrunsOut, hfield⟩)
      · cases hwords
      · cases hwords
        rw [names_unique hcount hcount']
        exact ⟨hstorable, hrunsOut, hfield⟩

/-- Every text is answered by cases, by an error of the descriptor, or by a fault for a count of
cases that no storage can be asked for. -/
theorem decode_announces (text : String) :
    Announces (Text.words text.toList) (decode text.toUTF8) := by
  rw [decode_toUTF8]
  cases Text.words text.toList with
  | nil =>
      exact announces_nil
  | cons word following =>
      by_cases hword : IsNumeral word
      · rcases hword with ⟨n, hn⟩
        exact announces_names hn
      · exact announces_other hword

/-- Three cases are announced, and the words end after the first number of the second one. -/
theorem decode_announces_more :
    decode "3 1 1 1 1 2".toUTF8 =
        .error (.error (.descriptor (.missing (.extent 1 .inChannels)))) ∧
      (Error.descriptor (.missing (.extent 1 .inChannels))).message =
        "descriptor error: unexpected end of input reading case 1 Cin" := by
  have hwords : Text.words "3 1 1 1 1 2".toList = ['3'] :: [['1'], ['1'], ['1'], ['1'], ['2']] := by
    decide
  have hnames {word : List Char} {n : Nat} (h : natural? Size.limit word = some n) :
      Names word n := natural?_eq_some_iff.mp h
  have hfirst : List.Forall₂ Names [['1'], ['1'], ['1'], ['1']]
      ([(⟨1, 1, 1, 1⟩ : FilterShape)].flatMap FilterShape.dims) :=
    .cons (hnames rfl) (.cons (hnames rfl) (.cons (hnames rfl) (.cons (hnames rfl) .nil)))
  have hadmissible : ∀ shape ∈ [(⟨1, 1, 1, 1⟩ : FilterShape)], Admissible shape := by
    intro shape hshape
    cases List.mem_singleton.mp hshape
    exact ⟨by decide, by decide⟩
  have hrest : ∀ word ∈ [['2']], IsNumeral word := by
    intro word hword
    cases List.mem_singleton.mp hword
    exact ⟨2, hnames rfl⟩
  have hrunsOut : RunsOut 3 [['1'], ['1'], ['1'], ['1'], ['2']] :=
    .mk ⟨_, rfl, hfirst, hadmissible⟩ hrest (by decide) (by decide)
  constructor
  · exact ((decode_announces "3 1 1 1 1 2").missing_iff _).mpr
      (.inr ⟨_, _, 3, hwords, hnames rfl, by decide, hrunsOut, rfl⟩)
  · rfl

/-- Nothing follows a count, so an end of the input should be reported.  The storage that is asked
for first ends the reading without an error of the descriptor. -/
theorem decode_countless_cases :
    RunsOut 288230376151711744 [] ∧
      decode "288230376151711744".toUTF8 = .error (.fault .capacity) ∧
      ¬ ((∃ shapes, decode "288230376151711744".toUTF8 = .ok shapes) ∨
        ∃ cause, decode "288230376151711744".toUTF8 = .error (.error (.descriptor cause))) := by
  have hfault : decode "288230376151711744".toUTF8 = .error (.fault .capacity) := by
    have hcount : Names "288230376151711744".toList 288230376151711744 :=
      natural?_eq_some_iff.mp rfl
    rw [decode_of_spread (words_eq_iff.mp rfl)]
    exact ofWords_of_not_storable hcount (by decide)
  refine ⟨runsOut_nil (by decide), hfault, ?_⟩
  rw [hfault]
  rintro (⟨_, h⟩ | ⟨_, h⟩)
  · cases h
  · cases h

end Descriptor
end ConvSweep
