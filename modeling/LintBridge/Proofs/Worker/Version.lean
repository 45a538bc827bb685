import LintBridge.Proofs.Json.Printing
import LintBridge.Proofs.Text.Trim
import LintBridge.Worker.Workshop
import Mathlib.Data.List.TakeWhile

/-! The version of a runtime, read from what it prints.  `SpellsVersion` says which texts begin with
a version and which digits stand for its major number; `major?_eq_some` says that just these are
read, if the digits are ASCII and the number fits into 32 bits.  What the check of a runtime comes
to, and what a user is told about it, is decided by that number alone. -/

namespace LintBridge.Worker

open LintBridge.Execution LintBridge.Text

namespace NodeVersion

/-- A number as a version has it: decimal digits of any script, and at least one. -/
structure IsNumber (s : List Char) : Prop where
  some : s ≠ []
  digits : ∀ c ∈ s, isDecimalDigit c = true

/-- A text begins with a version, the major number of which has some digits. -/
inductive SpellsVersion (major : List Char) : List Char → Prop
  | spelled {letter minor patch : List Char} (lettered : letter = [] ∨ letter = ['v'])
      (first : IsNumber major) (second : IsNumber minor) (third : IsNumber patch)
      (rest : List Char) :
      SpellsVersion major (letter ++ (major ++ '.' :: (minor ++ '.' :: (patch ++ rest))))

/-- Digits stand for a number that can be told. -/
structure Tells (digits : List Char) (n : Nat) : Prop where
  ascii : ∀ c ∈ digits, c.isDigit = true
  number : natOfDigits digits = n
  fits : n < UInt32.size

theorem isDecimalDigit_dot : isDecimalDigit '.' = false := by decide

theorem isDecimalDigit_v : isDecimalDigit 'v' = false := by decide

/-! ### What is read -/

section Read

variable {s digits rest : List Char}

theorem IsNumber.takeWhile (number : IsNumber digits) :
    (digits ++ '.' :: rest).takeWhile isDecimalDigit = digits := by
  rw [List.takeWhile_append_of_pos number.digits,
    List.takeWhile_cons_of_neg (by simp [isDecimalDigit_dot]), List.append_nil]

theorem IsNumber.dropWhile (number : IsNumber digits) :
    (digits ++ '.' :: rest).dropWhile isDecimalDigit = '.' :: rest := by
  rw [List.dropWhile_append_of_pos number.digits,
    List.dropWhile_cons_of_neg (by simp [isDecimalDigit_dot])]

theorem isNumber_takeWhile (some : s.takeWhile isDecimalDigit ≠ []) :
    IsNumber (s.takeWhile isDecimalDigit) :=
  ⟨some, fun _ => List.mem_takeWhile_imp⟩

theorem afterMinor?_of_number (number : IsNumber digits) (rest : List Char) :
    afterMinor? ('.' :: (digits ++ rest)) = some (rest.dropWhile isDecimalDigit) := by
  obtain ⟨c, more, rfl⟩ := List.exists_cons_of_ne_nil number.some
  have read : (c :: more ++ rest).takeWhile isDecimalDigit =
      c :: (more ++ rest).takeWhile isDecimalDigit :=
    List.takeWhile_cons_of_pos (number.digits c List.mem_cons_self)
  rw [afterMinor?, read]
  dsimp only
  rw [List.dropWhile_append_of_pos number.digits]

theorem exists_of_afterMinor? {left : List Char} (h : afterMinor? s = some left) :
    ∃ digits, IsNumber digits ∧ s = '.' :: (digits ++ left) := by
  unfold afterMinor? at h
  split at h
  next t =>
    split at h
    next => cases h
    next c more taken =>
      obtain rfl := Option.some.inj h
      refine ⟨t.takeWhile isDecimalDigit, isNumber_takeWhile (by simp [taken]), ?_⟩
      rw [List.takeWhile_append_dropWhile]
  next => cases h

theorem dropLetter_append {letter : List Char} (lettered : letter = [] ∨ letter = ['v'])
    (number : IsNumber digits) (rest : List Char) :
    dropLetter (letter ++ (digits ++ rest)) = digits ++ rest := by
  obtain ⟨c, more, rfl⟩ := List.exists_cons_of_ne_nil number.some
  rcases lettered with rfl | rfl
  · have other : c ≠ 'v' := by
      rintro rfl
      have digit := number.digits 'v' List.mem_cons_self
      rw [isDecimalDigit_v] at digit
      cases digit
    unfold dropLetter
    split
    next same => exact absurd (List.cons.inj same).1 other
    next => rfl
  · rfl

theorem exists_dropLetter (s : List Char) :
    ∃ letter, (letter = [] ∨ letter = ['v']) ∧ s = letter ++ dropLetter s := by
  unfold dropLetter
  split
  next t => exact ⟨['v'], .inr rfl, rfl⟩
  next => exact ⟨[], .inl rfl, rfl⟩

/-- Where a text begins with a version, the digits of its major number decide what is read. -/
theorem SpellsVersion.majorOf?_eq {major : List Char} (spells : SpellsVersion major s) :
    majorOf? s =
      if major.all Char.isDigit = true ∧ natOfDigits major < UInt32.size then
        some (natOfDigits major) else none := by
  obtain @⟨letter, minor, patch, lettered, first, second, third, rest⟩ := spells
  have read : decimalNat? major =
      if major.all Char.isDigit = true then some (natOfDigits major) else none := by
    simp [decimalNat?, first.some]
  have minorRead : afterMinor? ('.' :: (minor ++ '.' :: (patch ++ rest))) =
      some ('.' :: (patch ++ rest)) := by
    rw [afterMinor?_of_number second, List.dropWhile_cons_of_neg (by simp [isDecimalDigit_dot])]
  simp only [majorOf?, dropLetter_append lettered first, first.dropWhile, first.takeWhile,
    minorRead, afterMinor?_of_number third rest, Option.bind_eq_bind, Option.bind_some]
  rw [read]
  by_cases ascii : major.all Char.isDigit = true
  · rw [if_pos ascii, Option.bind_some]
    exact if_congr ⟨fun fits => ⟨ascii, fits⟩, And.right⟩ rfl rfl
  · rw [if_neg ascii, if_neg fun both => ascii both.1, Option.bind_none]

/-- What is read begins with a version. -/
theorem spellsVersion_of_majorOf? {n : Nat} (h : majorOf? s = some n) :
    ∃ major, SpellsVersion major s ∧ Tells major n := by
  obtain ⟨letter, lettered, split⟩ := exists_dropLetter s
  simp only [majorOf?, Option.bind_eq_bind, Option.bind_eq_some_iff] at h
  obtain ⟨left, minorRead, rest, patchRead, number, majorRead, kept⟩ := h
  obtain ⟨minor, second, dotted⟩ := exists_of_afterMinor? minorRead
  obtain ⟨patch, third, dotted'⟩ := exists_of_afterMinor? patchRead
  unfold decimalNat? at majorRead
  split at majorRead
  next filled =>
    obtain rfl := Option.some.inj majorRead
    split at kept
    next fits =>
      obtain rfl := Option.some.inj kept
      have first := isNumber_takeWhile filled.1
      have whole : s = letter ++ ((dropLetter s).takeWhile isDecimalDigit ++
          '.' :: (minor ++ '.' :: (patch ++ rest))) := by
        rw [← dotted', ← dotted, List.takeWhile_append_dropWhile, ← split]
      refine ⟨_, ?_, ⟨List.all_eq_true.mp filled.2, rfl, fits⟩⟩
      generalize (dropLetter s).takeWhile isDecimalDigit = major at first whole
      exact whole ▸ .spelled lettered first second third _
    next => cases kept
  next => cases majorRead

end Read

/-- The major number that is read from a text is that of the version with which the trimmed text
begins. -/
theorem major?_eq_some {output : String} {n : Nat} :
    major? output = some n ↔ ∃ kept digits, Trims output.toList kept ∧
      SpellsVersion digits kept ∧ Tells digits n := by
  constructor
  · intro read
    obtain ⟨digits, spells, tells⟩ := spellsVersion_of_majorOf? read
    exact ⟨_, digits, trims_trimChars _, spells, tells⟩
  · rintro ⟨kept, digits, trims, spells, ascii, rfl, fits⟩
    rw [major?, ← trims_iff.mp trims, spells.majorOf?_eq,
      if_pos ⟨List.all_eq_true.mpr ascii, fits⟩]

/-- A version whose major number has a digit that is not ASCII, or is too large, is not read. -/
theorem major?_eq_none {output : String} {kept digits : List Char}
    (trims : Trims output.toList kept) (spells : SpellsVersion digits kept)
    (unfit : (∃ c ∈ digits, c.isDigit = false) ∨ UInt32.size ≤ natOfDigits digits) :
    major? output = none := by
  rw [major?, ← trims_iff.mp trims, spells.majorOf?_eq, if_neg]
  rintro ⟨ascii, fits⟩
  rcases unfit with ⟨c, member, foreign⟩ | large
  · exact Bool.false_ne_true (foreign.symm.trans (List.all_eq_true.mp ascii c member))
  · exact absurd fits (Nat.not_lt.mpr large)

/-! ### Versions as they are written -/

theorem isDigit_of_mem_natChars {n : Nat} : ∀ c ∈ natChars n, c.isDigit = true :=
  fun _ => Nat.isDigit_of_mem_toDigits (by decide) (by decide)

theorem isBlank_of_isDigit {c : Char} (h : c.isDigit = true) : isBlank c = false := by
  simp only [Char.isDigit, Bool.and_eq_true, decide_eq_true_eq] at h
  have least : 48 ≤ c.toNat := by simpa using UInt32.le_iff_toNat_le.mp h.1
  have greatest : c.toNat ≤ 57 := by simpa using UInt32.le_iff_toNat_le.mp h.2
  simp [isBlank, inRanges, blankRanges]
  omega

theorem isNumber_natChars (n : Nat) : IsNumber (natChars n) where
  some := Nat.toDigits_ne_nil
  digits c member := isDecimalDigit_of_isDigit (isDigit_of_mem_natChars c member)

/-- Whatever stands after a version as it is written, its major number is read. -/
theorem major?_written {a : Nat} (fits : a < UInt32.size) (b c : Nat) (suffix : String) :
    major? s!"v{a}.{b}.{c}{suffix}" = some a := by
  let front : List Char := 'v' :: (natChars a ++ '.' :: (natChars b ++ '.' :: natChars c))
  have written : (s!"v{a}.{b}.{c}{suffix}").toList = front ++ suffix.toList := by
    simp [front, natChars, toString, Nat.toList_repr]
  -- the white space that is trimmed away is at the end of the suffix
  obtain ⟨after, blank, split⟩ := exists_trimEndChars suffix.toList
  refine major?_eq_some.mpr ⟨front ++ trimEndChars suffix.toList, natChars a, ⟨?_, ?_⟩, ?_,
    isDigit_of_mem_natChars, Json.natOfDigits_natChars a, fits⟩
  · refine ⟨[], after, ?_, rfl, blank⟩
    rw [written, List.nil_append, List.append_assoc, ← split]
  · constructor
    · rintro d first
      obtain rfl := Option.some.inj first
      decide
    · intro d last
      rw [List.getLast?_append, Option.mem_def, Option.or_eq_some_iff] at last
      rcases last with last | ⟨-, last⟩
      · exact getLast?_trimEndChars _ d last
      · have within : d ∈ natChars c := by
          have some : natChars c ≠ [] := (isNumber_natChars c).some
          refine List.mem_of_getLast? ?_
          simpa [front, List.getLast?_cons, List.getLast?_append,
            List.getLast?_eq_some_getLast some] using last
        exact isBlank_of_isDigit (isDigit_of_mem_natChars d within)
  · have spelled := SpellsVersion.spelled (.inr rfl) (isNumber_natChars a) (isNumber_natChars b)
      (isNumber_natChars c) (trimEndChars suffix.toList)
    simpa [front] using spelled

end NodeVersion

/-! ### What is made of it -/

namespace CheckedRuntime

/-- The verdict on a runtime goes by the major number that is read from what it has printed. -/
structure Judges (program : Path) (output : String)
    (verdict : Except RuntimeError CheckedRuntime) : Prop where
  accepted : ∀ r, verdict = .ok r ↔
    r.program = program ∧ NodeVersion.major? output = some r.major ∧ 8 ≤ r.major
  unsupported : ∀ n, verdict = .error (.unsupported n) ↔
    NodeVersion.major? output = some n ∧ n < 8
  unreadable : ∀ text, verdict = .error (.unreadableVersion text) ↔
    NodeVersion.major? output = none ∧ text = trim output

theorem judges_ofOutput (program : Path) (output : String) :
    Judges program output (ofOutput program output) := by
  unfold ofOutput
  cases read : NodeVersion.major? output with
  | none => constructor <;> simp [read, eq_comm]
  | some major =>
    by_cases old : major < NodeVersion.oldestSupported
    · have less : major < 8 := old
      constructor
      · rintro ⟨path, n⟩
        simp only [old, if_true, reduceCtorEq, read, Option.some.injEq, false_iff]
        rintro ⟨-, rfl, least⟩
        omega
      · intro n
        simp only [old, if_true, read, Except.error.injEq, RuntimeError.unsupported.injEq,
          Option.some.injEq, iff_self_and]
        rintro rfl
        exact less
      · simp [old, read]
    · have least : 8 ≤ major := Nat.not_lt.mp old
      constructor
      · rintro ⟨path, n⟩
        simp only [old, if_false, read, Except.ok.injEq, mk.injEq, Option.some.injEq]
        constructor
        · rintro ⟨rfl, rfl⟩
          exact ⟨rfl, rfl, least⟩
        · rintro ⟨rfl, rfl, -⟩
          exact ⟨rfl, rfl⟩
      · intro n
        simp only [old, if_false, reduceCtorEq, read, Option.some.injEq, false_iff]
        rintro ⟨rfl, less⟩
        omega
      · simp [old, read]

/-- Once a runtime was found and has printed something, the verdict is on that. -/
theorem check_of_output {m : Machine} {command output : String} {program : Path}
    (found : resolve m command = .ok program) (printed : versionOutput m program = .ok output) :
    check m command = ofOutput program output := by
  simp [check, found, printed, bind, Except.bind]

end CheckedRuntime

theorem NodeVersion.length_deprecationNotice? (n : Nat) :
    (deprecationNotice? n).toList.length = if n < 10 then 1 else 0 := by
  unfold deprecationNotice? oldestRecommended
  split <;> rfl

namespace Supervised

variable {σ : Type}

/-- What a supervisor makes of a verdict: it goes on with a runtime that was accepted, and gives one
notice if the version is deprecated; for one that was refused it gives none. -/
structure Heeds (s : Supervised σ) (verdict : Except RuntimeError CheckedRuntime)
    (chosen : Except Error (Option Path) × Supervised σ) : Prop where
  accepted : ∀ r, verdict = .ok r → chosen.1 = .ok (some r.program) ∧
    chosen.2.supervisor.notices = s.supervisor.notices ++ r.notice?.toList ∧
    r.notice?.toList.length = if r.major < 10 then 1 else 0
  refused : ∀ e, verdict = .error e → chosen.1 = .error (.runtime e) ∧
    chosen.2.supervisor.notices = s.supervisor.notices

theorem heeds_chooseProgram (p : Platform σ) (s : Supervised σ) {command : String}
    (runtime : s.supervisor.options.runtime = some command)
    (checked : s.supervisor.options.checkVersion = true) :
    s.Heeds (p.checkRuntime command s.world).1 (s.chooseProgram p) := by
  simp only [chooseProgram, runtime, checked, if_true]
  constructor
  · intro r accepted
    refine ⟨?_, ?_, NodeVersion.length_deprecationNotice? r.major⟩
    · simp [checkedProgram, accepted, Except.map]
    · cases told : r.notice? <;> simp [checkedProgram, accepted, told, notify, note, log]
  · intro e refused
    simp [checkedProgram, refused, note, Except.map]

end Supervised

open NodeVersion CheckedRuntime in
/-- A major number is read from a text exactly if the text begins with a version of which it can be
told, so from every version as it is written; and once a runtime was found and has printed
something, that number alone decides whether the runtime is accepted and whether there is a notice
about it. -/
theorem version_decides {σ : Type} (p : Platform σ) (output : String) :
    (∀ n, major? output = some n ↔ ∃ kept digits, Trims output.toList kept ∧
      SpellsVersion digits kept ∧ Tells digits n) ∧
    (∀ kept digits, Trims output.toList kept → SpellsVersion digits kept →
      (∃ c ∈ digits, c.isDigit = false) ∨ UInt32.size ≤ natOfDigits digits → major? output = none) ∧
    (∀ a < UInt32.size, ∀ (b c : Nat) (suffix : String), major? s!"v{a}.{b}.{c}{suffix}" = some a) ∧
    ∀ m command program, resolve m command = .ok program → versionOutput m program = .ok output →
      Judges program output (check m command) ∧
      ∀ s : Supervised σ, s.supervisor.options.runtime = some command →
        s.supervisor.options.checkVersion = true →
        (p.checkRuntime command s.world).1 = check m command →
        s.Heeds (check m command) (s.chooseProgram p) := by
  refine ⟨fun _ => major?_eq_some, fun _ _ => major?_eq_none,
    fun a fits b c suffix => major?_written fits b c suffix, ?_⟩
  intro m command program found printed
  constructor
  · rw [check_of_output found printed]
    exact judges_ofOutput program output
  · intro s runtime checked same
    rw [← same]
    exact s.heeds_chooseProgram p runtime checked

/-- A machine on which nothing is installed but a runtime with an old version. -/
def oldMachine : Machine where
  tree := { entries := [([Utf8.ofString "node"], .file [] true)] }
  vars := [("PATH", "/")]
  programs := [([Utf8.ofString "node"], .runtime (Utf8.ofString "v9.11.2\n") 0)]

def oldSupervised : Supervised Workshop where
  supervisor := { bundle := default }
  world := { machine := oldMachine }

open CheckedRuntime in
theorem version_decides_old :
    resolve oldMachine "node" = .ok (.ofString "/node") ∧
    versionOutput oldMachine (.ofString "/node") = .ok "v9.11.2\n" ∧
    NodeVersion.major? "v9.11.2\n" = some 9 ∧
    Judges (.ofString "/node") "v9.11.2\n" (check oldMachine "node") ∧
    oldSupervised.Heeds (check oldMachine "node")
      (oldSupervised.chooseProgram Workshop.platform) := by
  have found : resolve oldMachine "node" = .ok (.ofString "/node") := by decide +kernel
  have printed : versionOutput oldMachine (.ofString "/node") = .ok "v9.11.2\n" := by decide +kernel
  obtain ⟨-, -, written, judged⟩ := version_decides Workshop.platform "v9.11.2\n"
  obtain ⟨judges, heeds⟩ := judged _ _ _ found printed
  exact ⟨found, printed, written 9 (by decide) 11 2 "\n", judges, heeds oldSupervised rfl rfl rfl⟩

end LintBridge.Worker
