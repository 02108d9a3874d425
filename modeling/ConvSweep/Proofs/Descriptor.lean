import Mathlib
import ConvSweep.Descriptor
import ConvSweep.Proofs.Sweep.Blobs
import ConvSweep.Proofs.Text.Words

/-!
# The grammar of descriptors

A descriptor describes cases when its first word is a numeral of their number and the
words after it are numerals of their extents; further words do not matter.  A text is
accepted exactly when it describes admissible cases.  Otherwise the answer names the
first word or case that offends.
-/

namespace ConvSweep
namespace Descriptor

open Text

/-!
## Grammar
-/

/-- A numeral of a size. -/
def Names (word : List Char) (n : Nat) : Prop :=
  Numeral Size.limit word n

def IsNumeral (word : List Char) : Prop :=
  ∃ n, Names word n

/-- Positive extents, and weights that can be counted in bytes. -/
structure Admissible (shape : FilterShape) : Prop where
  pos : 0 ∉ shape.dims
  countable : 4 * shape.dims.prod < Size.limit

inductive Describes : List (List Char) → List FilterShape → Prop
  | mk {count : List Char} {extents rest : List (List Char)} {shapes : List FilterShape}
      (hcount : Names count shapes.length)
      (hextents : List.Forall₂ Names extents (shapes.flatMap FilterShape.dims))
      (hadmissible : ∀ shape ∈ shapes, Admissible shape) :
      Describes (count :: (extents ++ rest)) shapes

/-- The fields of a case in their order. -/
def caseFields (index : Nat) : List DescriptorField :=
  [.extent index .outChannels, .extent index .inChannels, .extent index .kernelRows,
    .extent index .kernelCols]

/-- What is wrong with the case at the beginning of the words. -/
inductive CaseOffence (index : Nat) : List (List Char) → DescriptorError → Prop
  | missing {words : List (List Char)} {field : DescriptorField}
      (hwords : ∀ word ∈ words, IsNumeral word)
      (hfield : (caseFields index)[words.length]? = some field) :
      CaseOffence index words (.missing field)
  | notNumber {before rest : List (List Char)} {word : List Char} {field : DescriptorField}
      (hbefore : ∀ word ∈ before, IsNumeral word)
      (hfield : (caseFields index)[before.length]? = some field) (hword : ¬ IsNumeral word) :
      CaseOffence index (before ++ word :: rest) (.notNumber field word)
  | zeroExtent {extents rest : List (List Char)} {shape : FilterShape}
      (hextents : List.Forall₂ Names extents shape.dims) (hzero : 0 ∈ shape.dims) :
      CaseOffence index (extents ++ rest) (.zeroExtent index shape)
  | tooLarge {extents rest : List (List Char)} {shape : FilterShape}
      (hextents : List.Forall₂ Names extents shape.dims) (hpos : 0 ∉ shape.dims)
      (hlarge : Size.limit ≤ 4 * shape.dims.prod) :
      CaseOffence index (extents ++ rest) (.tooLarge index shape)

/-- The first offence of the words: all before it is as the grammar wants it. -/
inductive Offence : List (List Char) → DescriptorError → Prop
  | missing : Offence [] (.missing .caseCount)
  | notNumber {word : List Char} {rest : List (List Char)} (hword : ¬ IsNumeral word) :
      Offence (word :: rest) (.notNumber .caseCount word)
  | inCase {count : List Char} {n : Nat} {extents rest : List (List Char)}
      {earlier : List FilterShape} {cause : DescriptorError} (hcount : Names count n)
      (hextents : List.Forall₂ Names extents (earlier.flatMap FilterShape.dims))
      (hearlier : ∀ shape ∈ earlier, Admissible shape) (hmore : earlier.length < n)
      (hcase : CaseOffence earlier.length rest cause) : Offence (count :: (extents ++ rest)) cause

/-- More cases are announced than can be stored. -/
inductive Unreservable : List (List Char) → Prop
  | mk {count : List Char} {n : Nat} {rest : List (List Char)} (hcount : Names count n)
      (hlarge : caseLimit ≤ n) : Unreservable (count :: rest)

/-!
## Numbers
-/

variable {index n : Nat} {words rest : List (List Char)} {word : List Char}
  {field : DescriptorField} {fields : List DescriptorField} {cause : DescriptorError}
  {shape : FilterShape} {shapes : List FilterShape} {numbers : List Nat}

theorem readNumber_names (h : Names word n) :
    readNumber field (word :: rest) = .ok (n, rest) := by
  rw [readNumber, natural?_eq_some_iff.mpr h]

theorem readNumber_other (h : ¬ IsNumeral word) :
    readNumber field (word :: rest) = .error (.notNumber field word) := by
  have hnone : natural? Size.limit word = none := by
    rw [Option.eq_none_iff_forall_ne_some]
    exact fun n hn => h ⟨n, natural?_eq_some_iff.mp hn⟩
  rw [readNumber, hnone]

theorem readNumber_eq_ok_iff : readNumber field words = .ok (n, rest) ↔
    ∃ word, words = word :: rest ∧ Names word n := by
  constructor
  · intro h
    cases words with
    | nil =>
        cases h
    | cons word others =>
        by_cases hword : IsNumeral word
        · rcases hword with ⟨m, hm⟩
          rw [readNumber_names hm] at h
          cases h
          exact ⟨word, rfl, hm⟩
        · rw [readNumber_other hword] at h
          cases h
  · rintro ⟨word, rfl, hword⟩
    exact readNumber_names hword

theorem readNumber_eq_error_iff : readNumber field words = .error cause ↔
    (words = [] ∧ cause = .missing field) ∨
      ∃ word rest, words = word :: rest ∧ ¬ IsNumeral word ∧ cause = .notNumber field word := by
  constructor
  · intro h
    cases words with
    | nil =>
        cases h
        exact .inl ⟨rfl, rfl⟩
    | cons word others =>
        by_cases hword : IsNumeral word
        · rcases hword with ⟨m, hm⟩
          rw [readNumber_names hm] at h
          cases h
        · rw [readNumber_other hword] at h
          cases h
          exact .inr ⟨word, others, rfl, hword, rfl⟩
  · rintro (⟨rfl, rfl⟩ | ⟨word, others, rfl, hword, rfl⟩)
    · rfl
    · exact readNumber_other hword

theorem names_unique {m : Nat} (hn : Names word n) (hm : Names word m) : n = m :=
  Option.some.inj ((natural?_eq_some_iff.mpr hn).symm.trans (natural?_eq_some_iff.mpr hm))

/-- The numbers of several fields. -/
def readNumbers : List DescriptorField → List (List Char) →
    Except DescriptorError (List Nat × List (List Char))
  | [], words => .ok ([], words)
  | field :: fields, words => do
      let (n, words) ← readNumber field words
      let (numbers, words) ← readNumbers fields words
      return (n :: numbers, words)

theorem readNumbers_names (h : Names word n) : readNumbers (field :: fields) (word :: rest) =
    (do let (numbers, words) ← readNumbers fields rest; return (n :: numbers, words)) := by
  rw [readNumbers, readNumber_names h]
  rfl

theorem readNumbers_eq_ok_iff : readNumbers fields words = .ok (numbers, rest) ↔
    ∃ taken, words = taken ++ rest ∧ List.Forall₂ Names taken numbers ∧
      taken.length = fields.length := by
  induction fields generalizing words numbers with
  | nil =>
      constructor
      · intro h
        cases h
        exact ⟨[], rfl, .nil, rfl⟩
      · rintro ⟨taken, rfl, hnames, hlength⟩
        cases List.length_eq_zero_iff.mp hlength
        cases hnames
        rfl
  | cons field fields ih =>
      constructor
      · intro h
        rcases bind_eq_ok h with ⟨⟨n, others⟩, hfirst, h⟩
        rcases bind_eq_ok h with ⟨⟨more, left⟩, hmore, h⟩
        cases h
        rcases readNumber_eq_ok_iff.mp hfirst with ⟨word, rfl, hword⟩
        rcases ih.mp hmore with ⟨taken, rfl, hnames, hlength⟩
        exact ⟨word :: taken, rfl, .cons hword hnames, congrArg Nat.succ hlength⟩
      · rintro ⟨taken, rfl, hnames, hlength⟩
        cases hnames with
        | nil =>
            cases hlength
        | cons hword hmore =>
            rw [List.cons_append, readNumbers_names hword,
              ih.mpr ⟨_, rfl, hmore, Nat.succ.inj hlength⟩]
            rfl

/-- The first number that cannot be read ends the reading. -/
theorem readNumbers_eq_error_iff : readNumbers fields words = .error cause ↔
    ∃ taken rest field, words = taken ++ rest ∧ (∀ word ∈ taken, IsNumeral word) ∧
      fields[taken.length]? = some field ∧ readNumber field rest = .error cause := by
  induction fields generalizing words with
  | nil =>
      constructor
      · intro h
        cases h
      · rintro ⟨taken, rest, field, rfl, hnames, hfield, herror⟩
        cases hfield
  | cons field fields ih =>
      constructor
      · intro h
        rcases bind_eq_error h with hfirst | ⟨⟨n, others⟩, hfirst, hmore⟩
        · exact ⟨[], words, field, rfl, List.forall_mem_nil _, rfl, hfirst⟩
        · rcases readNumber_eq_ok_iff.mp hfirst with ⟨word, rfl, hword⟩
          rcases bind_eq_error hmore with hmore | ⟨_, _, hpure⟩
          · rcases ih.mp hmore with ⟨taken, rest, field', rfl, hnames, hfield, herror⟩
            exact ⟨word :: taken, rest, field', rfl,
              List.forall_mem_cons.mpr ⟨⟨n, hword⟩, hnames⟩, hfield, herror⟩
          · cases hpure
      · rintro ⟨taken, rest, field', rfl, hnames, hfield, herror⟩
        cases taken with
        | nil =>
            cases hfield
            rw [List.nil_append, readNumbers, herror]
            rfl
        | cons word taken =>
            rcases List.forall_mem_cons.mp hnames with ⟨⟨n, hword⟩, hmore⟩
            rw [List.cons_append, readNumbers_names hword,
              ih.mpr ⟨taken, rest, field', rfl, hmore, hfield, herror⟩]
            rfl

/-!
## Cases
-/

/-- The shape with the given extents. -/
def shapeOf (numbers : List Nat) : FilterShape :=
  ⟨numbers.getD 0 0, numbers.getD 1 0, numbers.getD 2 0, numbers.getD 3 0⟩

theorem dims_shapeOf (h : numbers.length = 4) : (shapeOf numbers).dims = numbers := by
  rcases List.length_eq_four.mp h with ⟨a, b, c, d, rfl⟩
  rfl

/-- The checks of a case after its numbers are read. -/
def inspect (index : Nat) (shape : FilterShape) : Except DescriptorError Unit := do
  if shape.isEmpty then
    throw (.zeroExtent index shape)
  if shape.byteSize?.isNone then
    throw (.tooLarge index shape)

theorem readCase_eq : readCase index words = (do
    let (numbers, words) ← readNumbers (caseFields index) words
    inspect index (shapeOf numbers)
    return (shapeOf numbers, words)) := by
  simp only [readCase, caseFields, readNumbers, bind_assoc, pure_bind]
  refine bind_congr fun first => bind_congr fun second => bind_congr fun third =>
    bind_congr fun fourth => ?_
  show _ = _
  simp only [shapeOf, inspect, List.getD_cons_zero, List.getD_cons_succ]
  split
  · rfl
  · split
    · rfl
    · rfl

theorem isEmpty_iff : shape.isEmpty = true ↔ 0 ∈ shape.dims := by
  rw [FilterShape.isEmpty, List.contains_iff_mem]

theorem byteSize?_isNone_iff (hpos : 0 ∉ shape.dims) :
    shape.byteSize?.isNone = true ↔ Size.limit ≤ 4 * shape.dims.prod := by
  rw [Option.isNone_iff_eq_none, FilterShape.byteSize?_eq_none_iff,
    FilterShape.overflows_iff hpos]

theorem inspect_zero (hzero : 0 ∈ shape.dims) :
    inspect index shape = .error (.zeroExtent index shape) := by
  rw [inspect, if_pos (isEmpty_iff.mpr hzero)]
  rfl

theorem inspect_large (hpos : 0 ∉ shape.dims) (hlarge : Size.limit ≤ 4 * shape.dims.prod) :
    inspect index shape = .error (.tooLarge index shape) := by
  rw [inspect, if_neg (isEmpty_iff.not.mpr hpos), if_pos ((byteSize?_isNone_iff hpos).mpr hlarge)]
  rfl

theorem Admissible.inspect (h : Admissible shape) : inspect index shape = .ok () := by
  have hsmall : ¬ shape.byteSize?.isNone = true :=
    (byteSize?_isNone_iff h.pos).not.mpr (Nat.not_le.mpr h.countable)
  rw [Descriptor.inspect, if_neg (isEmpty_iff.not.mpr h.pos), if_neg hsmall]
  rfl

theorem Admissible.of_inspect (h : Descriptor.inspect index shape = .ok ()) : Admissible shape := by
  by_cases hzero : 0 ∈ shape.dims
  · rw [inspect_zero hzero] at h
    cases h
  · rcases Nat.lt_or_ge (4 * shape.dims.prod) Size.limit with hsmall | hlarge
    · exact ⟨hzero, hsmall⟩
    · rw [inspect_large hzero hlarge] at h
      cases h

theorem of_inspect_error (h : inspect index shape = .error cause) :
    (0 ∈ shape.dims ∧ cause = .zeroExtent index shape) ∨
      (0 ∉ shape.dims ∧ Size.limit ≤ 4 * shape.dims.prod ∧ cause = .tooLarge index shape) := by
  by_cases hzero : 0 ∈ shape.dims
  · rw [inspect_zero hzero] at h
    cases h
    exact .inl ⟨hzero, rfl⟩
  · rcases Nat.lt_or_ge (4 * shape.dims.prod) Size.limit with hsmall | hlarge
    · rw [Admissible.inspect ⟨hzero, hsmall⟩] at h
      cases h
    · rw [inspect_large hzero hlarge] at h
      cases h
      exact .inr ⟨hzero, hlarge, rfl⟩

/-- The numbers of a case are the extents of its shape. -/
theorem readNumbers_case_iff :
    readNumbers (caseFields index) words = .ok (numbers, rest) ↔
      ∃ extents, words = extents ++ rest ∧ List.Forall₂ Names extents (shapeOf numbers).dims ∧
        numbers = (shapeOf numbers).dims := by
  rw [readNumbers_eq_ok_iff]
  constructor
  · rintro ⟨extents, rfl, hnames, hlength⟩
    have hdims := dims_shapeOf (hnames.length_eq.symm.trans hlength)
    exact ⟨extents, rfl, hdims.symm ▸ hnames, hdims.symm⟩
  · rintro ⟨extents, rfl, hnames, hdims⟩
    exact ⟨extents, rfl, hdims ▸ hnames, hnames.length_eq⟩

theorem readNumbers_dims {extents : List (List Char)}
    (h : List.Forall₂ Names extents shape.dims) :
    readNumbers (caseFields index) (extents ++ rest) = .ok (shape.dims, rest) :=
  readNumbers_case_iff.mpr ⟨extents, rfl, h, rfl⟩

theorem readCase_eq_ok_iff : readCase index words = .ok (shape, rest) ↔
    ∃ extents, words = extents ++ rest ∧ List.Forall₂ Names extents shape.dims ∧
      Admissible shape := by
  rw [readCase_eq]
  constructor
  · intro h
    rcases bind_eq_ok h with ⟨⟨numbers, left⟩, hnumbers, h⟩
    rcases bind_eq_ok h with ⟨_, hinspect, h⟩
    cases h
    rcases readNumbers_case_iff.mp hnumbers with ⟨extents, rfl, hnames, _⟩
    exact ⟨extents, rfl, hnames, .of_inspect hinspect⟩
  · rintro ⟨extents, rfl, hnames, hadmissible⟩
    rw [readNumbers_dims hnames]
    show (inspect index shape >>= fun _ => _) = _
    rw [hadmissible.inspect]
    rfl

theorem readCase_eq_error_iff : readCase index words = .error cause ↔
    CaseOffence index words cause := by
  rw [readCase_eq]
  constructor
  · intro h
    rcases bind_eq_error h with hnumbers | ⟨⟨numbers, left⟩, hnumbers, hchecks⟩
    · rcases readNumbers_eq_error_iff.mp hnumbers with
        ⟨taken, rest, field, rfl, hnames, hfield, herror⟩
      rcases readNumber_eq_error_iff.mp herror with ⟨rfl, rfl⟩ | ⟨word, after, rfl, hword, rfl⟩
      · rw [List.append_nil]
        exact .missing hnames hfield
      · exact .notNumber hnames hfield hword
    · rcases readNumbers_case_iff.mp hnumbers with ⟨extents, rfl, hnames, _⟩
      rcases bind_eq_error hchecks with hinspect | ⟨_, _, hpure⟩
      · rcases of_inspect_error hinspect with ⟨hzero, rfl⟩ | ⟨hpos, hlarge, rfl⟩
        · exact .zeroExtent hnames hzero
        · exact .tooLarge hnames hpos hlarge
      · cases hpure
  · intro h
    cases h with
    | @missing words field hwords hfield =>
        rw [readNumbers_eq_error_iff.mpr
          ⟨words, [], field, (List.append_nil _).symm, hwords, hfield, rfl⟩]
        rfl
    | @notNumber before rest word field hbefore hfield hword =>
        rw [readNumbers_eq_error_iff.mpr
          ⟨before, word :: rest, field, rfl, hbefore, hfield, readNumber_other hword⟩]
        rfl
    | @zeroExtent extents rest shape hextents hzero =>
        rw [readNumbers_dims hextents]
        show (inspect index shape >>= fun _ => _) = _
        rw [inspect_zero hzero]
        rfl
    | @tooLarge extents rest shape hextents hpos hlarge =>
        rw [readNumbers_dims hextents]
        show (inspect index shape >>= fun _ => _) = _
        rw [inspect_large hpos hlarge]
        rfl

/-!
## Descriptors
-/

variable {count : Nat} {earlier : List FilterShape}

/-- The words begin with numerals of the extents of admissible cases. -/
def Spells (shapes : List FilterShape) (words rest : List (List Char)) : Prop :=
  ∃ extents, words = extents ++ rest ∧
    List.Forall₂ Names extents (shapes.flatMap FilterShape.dims) ∧
    ∀ shape ∈ shapes, Admissible shape

theorem spells_nil : Spells [] words words :=
  ⟨[], rfl, .nil, fun _ hshape => absurd hshape List.not_mem_nil⟩

theorem Spells.eq_of_nil (h : Spells [] words rest) : words = rest := by
  rcases h with ⟨extents, rfl, hnames, _⟩
  cases hnames
  rfl

theorem spells_cons_iff : Spells (shape :: shapes) words rest ↔
    ∃ after, readCase index words = .ok (shape, after) ∧ Spells shapes after rest := by
  constructor
  · rintro ⟨extents, rfl, hnames, hadmissible⟩
    rw [List.flatMap_cons] at hnames
    rcases List.forall_mem_cons.mp hadmissible with ⟨hfirst, hothers⟩
    have hcase := List.forall₂_take_append extents shape.dims _ hnames
    have hmore := List.forall₂_drop_append extents shape.dims _ hnames
    refine ⟨extents.drop shape.dims.length ++ rest, ?_, _, rfl, hmore, hothers⟩
    rw [readCase_eq_ok_iff]
    refine ⟨extents.take shape.dims.length, ?_, hcase, hfirst⟩
    rw [← List.append_assoc, List.take_append_drop]
  · rintro ⟨after, hcase, extents, rfl, hnames, hothers⟩
    rcases readCase_eq_ok_iff.mp hcase with ⟨first, rfl, hfirst, hadmissible⟩
    refine ⟨first ++ extents, (List.append_assoc _ _ _).symm, ?_,
      List.forall_mem_cons.mpr ⟨hadmissible, hothers⟩⟩
    rw [List.flatMap_cons]
    exact List.rel_append hfirst hnames

theorem readCases_eq_ok_iff : readCases index words count = .ok shapes ↔
    shapes.length = count ∧ ∃ rest, Spells shapes words rest := by
  induction count generalizing index words shapes with
  | zero =>
      constructor
      · intro h
        cases h
        exact ⟨rfl, words, spells_nil⟩
      · rintro ⟨hlength, _⟩
        rw [List.length_eq_zero_iff.mp hlength]
        rfl
  | succ count ih =>
      constructor
      · intro h
        rcases bind_eq_ok h with ⟨⟨shape, after⟩, hcase, h⟩
        rcases bind_eq_ok h with ⟨following, hfollowing, h⟩
        cases h
        rcases ih.mp hfollowing with ⟨hlength, rest, hspells⟩
        exact ⟨congrArg Nat.succ hlength, rest, spells_cons_iff.mpr ⟨after, hcase, hspells⟩⟩
      · rintro ⟨hlength, rest, hspells⟩
        cases shapes with
        | nil =>
            cases hlength
        | cons shape following =>
            rcases spells_cons_iff.mp hspells with ⟨after, hcase, hfollowing⟩
            rw [readCases, hcase, ok_bind]
            dsimp only
            rw [ih.mpr ⟨Nat.succ.inj hlength, rest, hfollowing⟩]
            rfl

/-- The first case with an offence ends the reading. -/
theorem readCases_eq_error_iff : readCases index words count = .error cause ↔
    ∃ earlier rest, earlier.length < count ∧ Spells earlier words rest ∧
      CaseOffence (index + earlier.length) rest cause := by
  induction count generalizing index words with
  | zero =>
      constructor
      · intro h
        cases h
      · rintro ⟨earlier, rest, hlt, _⟩
        exact absurd hlt (Nat.not_lt_zero _)
  | succ count ih =>
      constructor
      · intro h
        rcases bind_eq_error h with hcase | ⟨⟨shape, after⟩, hcase, hmore⟩
        · exact ⟨[], words, Nat.succ_pos _, spells_nil, readCase_eq_error_iff.mp hcase⟩
        · rcases bind_eq_error hmore with hmore | ⟨_, _, hpure⟩
          · rcases ih.mp hmore with ⟨earlier, rest, hlt, hspells, hoffence⟩
            refine ⟨shape :: earlier, rest, Nat.succ_lt_succ hlt,
              spells_cons_iff.mpr ⟨after, hcase, hspells⟩, ?_⟩
            rwa [List.length_cons, Nat.add_comm earlier.length, ← Nat.add_assoc]
          · cases hpure
      · rintro ⟨earlier, rest, hlt, hspells, hoffence⟩
        cases earlier with
        | nil =>
            cases hspells.eq_of_nil
            have hcase : readCase index words = .error cause := readCase_eq_error_iff.mpr hoffence
            rw [readCases, hcase]
            rfl
        | cons shape earlier =>
            rcases spells_cons_iff.mp hspells with ⟨after, hcase, hmore⟩
            rw [List.length_cons, Nat.add_comm earlier.length, ← Nat.add_assoc] at hoffence
            rw [readCases, hcase, ok_bind]
            dsimp only
            rw [ih.mpr ⟨earlier, rest, Nat.lt_of_succ_lt_succ hlt, hmore, hoffence⟩]
            rfl

theorem ofWords_names {following : List (List Char)} (h : Names word n) :
    ofWords (word :: following) = if n < caseLimit then
      (readCases 0 following n).mapError fun e => .error (.descriptor e)
    else
      .error (.fault .capacity) := by
  rw [ofWords, readNumber_names h]
  split
  · rename_i hlt
    show ((liftM (Fault.capacity.check (n < caseLimit)) : Outcome Unit) >>= fun _ => _) = _
    rw [check_of _ hlt]
    rfl
  · rename_i hlt
    show ((liftM (Fault.capacity.check (n < caseLimit)) : Outcome Unit) >>= fun _ => _) = _
    rw [Fault.check, if_neg hlt]
    rfl

theorem ofWords_other {following : List (List Char)} (h : ¬ IsNumeral word) :
    ofWords (word :: following) = .error (.error (.descriptor (.notNumber .caseCount word))) := by
  rw [ofWords, readNumber_other h]
  rfl

theorem describes_cons_iff {following : List (List Char)} :
    Describes (word :: following) shapes ↔
      Names word shapes.length ∧ ∃ rest, Spells shapes following rest := by
  constructor
  · intro h
    cases h with
    | mk hcount hextents hadmissible =>
        exact ⟨hcount, _, _, rfl, hextents, hadmissible⟩
  · rintro ⟨hcount, rest, extents, rfl, hextents, hadmissible⟩
    exact .mk hcount hextents hadmissible

theorem unreservable_iff {following : List (List Char)} (h : Names word n) :
    Unreservable (word :: following) ↔ caseLimit ≤ n := by
  constructor
  · intro hunreservable
    cases hunreservable with
    | mk hcount hlarge =>
        rwa [names_unique h hcount]
  · exact .mk h

theorem offence_iff {following : List (List Char)} (h : Names word n) :
    Offence (word :: following) cause ↔ ∃ earlier rest, earlier.length < n ∧
      Spells earlier following rest ∧ CaseOffence earlier.length rest cause := by
  constructor
  · intro hoffence
    cases hoffence with
    | notNumber hword =>
        exact absurd ⟨n, h⟩ hword
    | inCase hcount hextents hearlier hmore hcase =>
        rw [names_unique h hcount]
        exact ⟨_, _, hmore, ⟨_, rfl, hextents, hearlier⟩, hcase⟩
  · rintro ⟨earlier, rest, hmore, ⟨extents, rfl, hextents, hearlier⟩, hcase⟩
    exact .inCase h hextents hearlier hmore hcase

theorem readCases_eq_error_iff_offence {following : List (List Char)} (h : Names word n) :
    readCases 0 following n = .error cause ↔ Offence (word :: following) cause := by
  rw [readCases_eq_error_iff, offence_iff h]
  simp only [Nat.zero_add]

/-- What is read is what the words describe. -/
theorem ofWords_eq_ok_iff : ofWords words = .ok shapes ↔
    Describes words shapes ∧ shapes.length < caseLimit := by
  cases words with
  | nil =>
      constructor
      · intro h
        cases h
      · rintro ⟨hdescribes, _⟩
        cases hdescribes
  | cons word following =>
      rw [describes_cons_iff]
      by_cases hword : IsNumeral word
      · rcases hword with ⟨n, hn⟩
        rw [ofWords_names hn]
        constructor
        · intro h
          split at h
          · rename_i hlt
            rcases readCases_eq_ok_iff.mp (of_mapError h) with ⟨rfl, hspells⟩
            exact ⟨⟨hn, hspells⟩, hlt⟩
          · cases h
        · rintro ⟨⟨hcount, hspells⟩, hlt⟩
          rw [names_unique hn hcount, if_pos hlt, readCases_eq_ok_iff.mpr ⟨rfl, hspells⟩]
          rfl
      · rw [ofWords_other hword]
        constructor
        · intro h
          cases h
        · rintro ⟨⟨hcount, _⟩, _⟩
          exact absurd ⟨_, hcount⟩ hword

/-- What is refused is refused for its first offence, or for a count that cannot be stored. -/
theorem ofWords_eq_error_iff {failure : Failure} : ofWords words = .error failure ↔
    (∃ cause, failure = .error (.descriptor cause) ∧ Offence words cause ∧
      ¬ Unreservable words) ∨ (failure = .fault .capacity ∧ Unreservable words) := by
  cases words with
  | nil =>
      constructor
      · intro h
        cases h
        exact .inl ⟨_, rfl, .missing, fun h => by cases h⟩
      · rintro (⟨cause, rfl, hoffence, _⟩ | ⟨_, hunreservable⟩)
        · cases hoffence
          rfl
        · cases hunreservable
  | cons word following =>
      by_cases hword : IsNumeral word
      · rcases hword with ⟨n, hn⟩
        rw [ofWords_names hn, unreservable_iff hn]
        split
        · rename_i hlt
          have hle : ¬ caseLimit ≤ n := Nat.not_le.mpr hlt
          rw [mapError_eq_error_iff, or_iff_left fun h => hle h.2]
          constructor
          · rintro ⟨cause, hread, rfl⟩
            exact ⟨cause, rfl, (readCases_eq_error_iff_offence hn).mp hread, hle⟩
          · rintro ⟨cause, rfl, hoffence, _⟩
            exact ⟨cause, (readCases_eq_error_iff_offence hn).mpr hoffence, rfl⟩
        · rename_i hlt
          have hle : caseLimit ≤ n := Nat.not_lt.mp hlt
          simp [hle, eq_comm]
      · rw [ofWords_other hword]
        constructor
        · intro h
          cases h
          exact .inl ⟨_, rfl, .notNumber hword, fun h => by
            cases h with
            | mk hcount _ =>
                exact hword ⟨_, hcount⟩⟩
        · rintro (⟨cause, rfl, hoffence, _⟩ | ⟨_, hunreservable⟩)
          · cases hoffence with
            | notNumber _ =>
                rfl
            | inCase hcount _ _ _ _ =>
                exact absurd ⟨_, hcount⟩ hword
          · cases hunreservable with
            | mk hcount _ =>
                exact absurd ⟨_, hcount⟩ hword

theorem length_flatMap_dims (shapes : List FilterShape) :
    (shapes.flatMap FilterShape.dims).length = 4 * shapes.length := by
  induction shapes with
  | nil =>
      rfl
  | cons shape shapes ih =>
      rw [List.flatMap_cons, List.length_append, ih, List.length_cons]
      show 4 + 4 * shapes.length = 4 * (shapes.length + 1)
      omega

theorem Describes.length_le (h : Describes words shapes) :
    4 * shapes.length < words.length := by
  cases h with
  | @mk count extents rest shapes _ hextents _ =>
      rw [List.length_cons, List.length_append, hextents.length_eq, length_flatMap_dims]
      omega

/-- How words are answered. -/
structure Answered (words : List (List Char)) (answer : Outcome (List FilterShape)) : Prop where
  ok_iff : ∀ shapes, answer = .ok shapes ↔ Describes words shapes ∧ shapes.length < caseLimit
  /-- So many words cannot be stored. -/
  length_lt : ∀ shapes, Describes words shapes → words.length ≤ 4 * caseLimit →
    shapes.length < caseLimit
  error_iff : ∀ e, answer = .error (.error e) ↔ ∃ cause, e = .descriptor cause ∧
    Offence words cause ∧ ¬ Unreservable words
  fault_iff : ∀ fault, answer = .error (.fault fault) ↔ fault = .capacity ∧ Unreservable words

theorem answered_ofWords (words : List (List Char)) : Answered words (ofWords words) where
  ok_iff _ := ofWords_eq_ok_iff
  length_lt shapes hdescribes hlength := by
    have hshapes := hdescribes.length_le
    omega
  error_iff e := by
    rw [ofWords_eq_error_iff]
    simp
  fault_iff fault := by
    rw [ofWords_eq_error_iff]
    simp

theorem decode_toUTF8 (text : String) : decode text.toUTF8 = ofWords (Text.words text.toList) := by
  have htext : String.fromUTF8? text.toUTF8 = some text := fromUTF8?_eq_some_iff.mpr rfl
  rw [decode, htext]
  rfl

theorem decode_of_spread {text : String} (h : Spread words text.toList) :
    decode text.toUTF8 = ofWords words := by
  rw [decode_toUTF8, words_eq_iff.mpr h]

theorem decode_not_text {bytes : ByteArray} (h : ¬ ∃ text : String, bytes = text.toUTF8) :
    decode bytes = .error (.error (.stream .notText)) := by
  have hnone : String.fromUTF8? bytes = none := by
    rw [Option.eq_none_iff_forall_ne_some]
    exact fun text htext => h ⟨text, fromUTF8?_eq_some_iff.mp htext⟩
  rw [decode, hnone]

/-- The bytes read line by line. -/
def decodeLines (bytes : ByteArray) : Outcome (List FilterShape) :=
  match lineWords (bytes.data.toList.splitOn 10) with
  | some words => ofWords words
  | none => .error (.error (.stream .notText))

theorem decodeLines_eq_decode (bytes : ByteArray) : decodeLines bytes = decode bytes := by
  have hne : bytes.data.toList.splitOn 10 ≠ [] := List.splitOnP_ne_nil _ _
  rw [decodeLines, lineWords_intercalate hne, List.intercalate_splitOn, textOf, decode]
  cases String.fromUTF8? ⟨bytes.data.toList.toArray⟩ with
  | none =>
      rfl
  | some text =>
      rfl

/--
A text is answered by its words, whatever blanks are between them, and the line breaks make no
difference.  Numerals of admissible cases with blanks between them, and any text after a blank,
are read back.
-/
theorem decode_grammar :
    (∀ text : String, ∃ words, Spread words text.toList) ∧
    (∀ (text : String) (words : List (List Char)), Spread words text.toList →
      Answered words (decode text.toUTF8)) ∧
    (∀ (text text' : String) (words : List (List Char)), Spread words text.toList →
      Spread words text'.toList → decode text.toUTF8 = decode text'.toUTF8) ∧
    (∀ bytes, decodeLines bytes = decode bytes) ∧
    (∀ bytes, (¬ ∃ text : String, bytes = text.toUTF8) →
      decode bytes = .error (.error (.stream .notText))) ∧
    (∀ n < Size.limit, Names n.repr.toList n) ∧
    ∀ (shapes : List FilterShape) (count : List Char) (extents : List (List Char))
      (body tail : List Char), shapes.length < caseLimit → (∀ shape ∈ shapes, Admissible shape) →
      Names count shapes.length →
      List.Forall₂ Names extents (shapes.flatMap FilterShape.dims) →
      Spread (count :: extents) body → Parted tail →
      decode (String.ofList (body ++ tail)).toUTF8 = .ok shapes := by
  refine ⟨?_, ?_, ?_, decodeLines_eq_decode, fun _ => decode_not_text, fun _ => numeral_repr, ?_⟩
  · intro text
    exact ⟨_, words_eq_iff.mp rfl⟩
  · intro text words hspread
    rw [decode_of_spread hspread]
    exact answered_ofWords words
  · intro text text' words hspread hspread'
    rw [decode_of_spread hspread, decode_of_spread hspread']
  · intro shapes count extents body tail hlt hadmissible hcount hextents hspread hparted
    rw [decode_toUTF8, String.toList_ofList, hspread.words_append hparted, ofWords_eq_ok_iff]
    exact ⟨.mk hcount hextents hadmissible, hlt⟩

/--
Signs, leading zeros and line breaks do not matter, nor does what follows.  A word that is no
number is named before the zero extent in front of it.
-/
theorem decode_signed_case :
    decode "+1 01\r\n\t2 3 4\n# end".toUTF8 = .ok [⟨1, 2, 3, 4⟩] ∧
      decode "1 0 1 x".toUTF8 =
        .error (.error (.descriptor (.notNumber (.extent 0 .kernelRows) ['x']))) := by
  rcases decode_grammar with ⟨_, hanswered, _, _, _, _, hrendered⟩
  have hnames {word : List Char} {n : Nat} (h : natural? Size.limit word = some n) :
      Names word n := natural?_eq_some_iff.mp h
  refine ⟨?_, ?_⟩
  · have hextents : List.Forall₂ Names [['0', '1'], ['2'], ['3'], ['4']]
        ([(⟨1, 2, 3, 4⟩ : FilterShape)].flatMap FilterShape.dims) :=
      .cons (hnames rfl) (.cons (hnames rfl) (.cons (hnames rfl) (.cons (hnames rfl) .nil)))
    have hadmissible : ∀ shape ∈ [(⟨1, 2, 3, 4⟩ : FilterShape)], Admissible shape := by
      intro shape hshape
      cases List.mem_singleton.mp hshape
      exact ⟨by decide, by decide⟩
    have hparted : Parted "\n# end".toList := parted_cons rfl
    exact hrendered [⟨1, 2, 3, 4⟩] ['+', '1'] [['0', '1'], ['2'], ['3'], ['4']]
      "+1 01\r\n\t2 3 4".toList "\n# end".toList (by decide) hadmissible (hnames rfl) hextents
      (words_eq_iff.mp (by decide)) hparted
  · have hspread : Spread [['1'], ['0'], ['1'], ['x']] "1 0 1 x".toList :=
      words_eq_iff.mp (by decide)
    have hcount : Names ['1'] 1 := hnames rfl
    have hbefore : ∀ word ∈ [['0'], ['1']], IsNumeral word := by
      rintro word hword
      rcases List.mem_pair.mp hword with rfl | rfl
      · exact ⟨0, hnames rfl⟩
      · exact ⟨1, hnames rfl⟩
    have hword : ¬ IsNumeral ['x'] := fun ⟨n, hn⟩ => by
      cases natural?_eq_some_iff.mpr hn
    have hcase : CaseOffence 0 ([['0'], ['1']] ++ [['x']])
        (.notNumber (.extent 0 .kernelRows) ['x']) := .notNumber hbefore rfl hword
    refine ((hanswered _ _ hspread).error_iff _).mpr ⟨_, rfl, ?_, ?_⟩
    · exact (offence_iff hcount).mpr ⟨[], _, Nat.one_pos, spells_nil, hcase⟩
    · exact (unreservable_iff hcount).not.mpr (by decide)

end Descriptor
end ConvSweep
