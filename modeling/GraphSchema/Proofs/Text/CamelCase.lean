import GraphSchema.Proofs.Compile.Checks
import GraphSchema.Text.CamelCase

/-! What camel case keeps of an identifier.

An identifier of small letters, digits and single underscores becomes a name that a schema
may declare. An underscore before a letter stays visible in the capital after it, so
splitting the name at its capitals gives the identifier back (`split_humps`). A digit has
no capital: an underscore before it is lost, and the number runs into the word before it.
Nothing else is lost, so two identifiers have one name exactly if they are the same once
their numbers run in (`camelCase_eq_iff`). -/
namespace GraphSchema.Text

/-- A small letter or a digit. -/
def isWordChar (c : Char) : Bool := c.isLower || c.isDigit

/-- What may follow the first letter of an identifier: an underscore stands between two other
characters, never at the end and never next to another one. -/
inductive SnakeTail : List Char → Prop where
  | nil : SnakeTail []
  | char {c : Char} {cs : List Char} (hc : isWordChar c = true) (h : SnakeTail cs) :
    SnakeTail (c :: cs)
  | underscore {c : Char} {cs : List Char} (hc : isWordChar c = true) (h : SnakeTail cs) :
    SnakeTail ('_' :: c :: cs)

/-- Small letters, digits and single underscores between them, with a letter in front. -/
inductive SnakeCase : List Char → Prop where
  | intro {c : Char} {cs : List Char} (hc : c.isLower = true) (h : SnakeTail cs) :
    SnakeCase (c :: cs)

def isSnakeTail : List Char → Bool
  | [] => true
  | '_' :: c :: cs => isWordChar c && isSnakeTail cs
  | c :: cs => isWordChar c && isSnakeTail cs

theorem isSnakeTail_iff (cs : List Char) : isSnakeTail cs = true ↔ SnakeTail cs := by
  refine ⟨fun h => ?_, fun h => ?_⟩
  · induction cs using isSnakeTail.induct with
    | case1 => exact .nil
    | case2 c cs ih =>
      obtain ⟨hc, hcs⟩ := Bool.and_eq_true_iff.mp h
      exact .underscore hc (ih hcs)
    | case3 c cs hne ih =>
      rw [isSnakeTail, Bool.and_eq_true] at h
      · exact .char h.1 (ih h.2)
      · exact hne
  · induction h with
    | nil => rfl
    | underscore hc _ ih => simp [isSnakeTail, hc, ih]
    | @char c cs hc _ ih =>
      rw [isSnakeTail, hc, ih, Bool.and_self]
      rintro _ _ rfl
      exact absurd hc (by decide)

instance : DecidablePred SnakeTail := fun cs => decidable_of_iff _ (isSnakeTail_iff cs)

instance : DecidablePred SnakeCase
  | [] => .isFalse nofun
  | c :: cs => decidable_of_iff (c.isLower = true ∧ SnakeTail cs)
    ⟨fun ⟨hc, h⟩ => .intro hc h, fun | .intro hc h => ⟨hc, h⟩⟩

/-- Runs every number into the word before it: an underscore before a digit is left out. -/
def runIn : List Char → List Char
  | [] => []
  | c :: cs => if c = '_' ∧ cs.head?.any Char.isDigit then runIn cs else c :: runIn cs

/-- Reads every capital as the start of a new word. -/
def split : List Char → List Char
  | [] => []
  | c :: cs => if c.isUpper then '_' :: c.toLower :: split cs else c :: split cs

/-! ### Characters -/

theorem toNat_of_isLower {c : Char} (h : c.isLower = true) : 97 ≤ c.toNat ∧ c.toNat ≤ 122 := by
  change (decide (97 ≤ c.val) && decide (c.val ≤ 122)) = true at h
  simpa [UInt32.le_iff_toNat_le] using h

theorem toNat_of_isUpper {c : Char} (h : c.isUpper = true) : 65 ≤ c.toNat ∧ c.toNat ≤ 90 := by
  change decide (65 ≤ c.val ∧ c.val ≤ 90) = true at h
  simpa [UInt32.le_iff_toNat_le] using h

theorem toNat_of_isDigit {c : Char} (h : c.isDigit = true) : 48 ≤ c.toNat ∧ c.toNat ≤ 57 := by
  simpa [Char.isDigit, UInt32.le_iff_toNat_le] using h

/-- The capital of a small letter is a letter, and has it as its small form. -/
theorem toUpper_of_isLower {c : Char} (h : c.isLower = true) :
    c.toUpper.isUpper = true ∧ c.toUpper.toLower = c ∧ c.toUpper.isAlpha = true := by
  have hall : ∀ n < 26, (Char.ofNat (97 + n)).toUpper.isUpper = true ∧
      (Char.ofNat (97 + n)).toUpper.toLower = Char.ofNat (97 + n) ∧
      (Char.ofNat (97 + n)).toUpper.isAlpha = true := by decide
  obtain ⟨hlow, hhigh⟩ := toNat_of_isLower h
  have hc := hall (c.toNat - 97) (by omega)
  rwa [Nat.add_sub_cancel' hlow, Char.ofNat_toNat] at hc

theorem toUpper_of_isDigit {c : Char} (h : c.isDigit = true) : c.toUpper = c := by
  have hbounds := toNat_of_isDigit h
  refine dif_neg fun hlower => ?_
  have hlow : 97 ≤ c.toNat := UInt32.le_iff_toNat_le.mp hlower.1
  omega

/-- Such a character is kept as it is, and is no start of a word. -/
theorem isWordChar_spec {c : Char} (h : isWordChar c = true) :
    c ≠ '_' ∧ c.isUpper = false ∧ c.toNat < 0x80 := by
  have hbounds : c.toNat ≤ 57 ∨ 97 ≤ c.toNat ∧ c.toNat ≤ 122 := by
    rcases Bool.or_eq_true_iff.mp h with h | h
    · exact .inr (toNat_of_isLower h)
    · exact .inl (toNat_of_isDigit h).2
  refine ⟨?_, ?_, by omega⟩
  · rintro rfl
    exact absurd h (by decide)
  · rw [Bool.eq_false_iff]
    intro hupper
    have := toNat_of_isUpper hupper
    omega

theorem isDigit_of_isLower {c : Char} (h : c.isLower = true) : c.isDigit = false := by
  rw [Bool.eq_false_iff]
  intro hdigit
  have := toNat_of_isLower h
  have := toNat_of_isDigit hdigit
  omega

/-! ### Names and identifiers -/

theorem runIn_char {c : Char} (hc : isWordChar c = true) (cs : List Char) :
    runIn (c :: cs) = c :: runIn cs := by
  rw [runIn, if_neg fun h => (isWordChar_spec hc).1 h.1]

theorem runIn_underscore {c : Char} (hc : isWordChar c = true) (cs : List Char) :
    runIn ('_' :: c :: cs) = if c.isDigit then c :: runIn cs else '_' :: c :: runIn cs := by
  rw [runIn, runIn_char hc]
  simp

theorem humps_char {c : Char} (hc : isWordChar c = true) (started : Bool) (cs : List Char) :
    humps started false (c :: cs) = c :: humps true false cs := by
  rw [humps_cons (isWordChar_spec hc).1, if_neg (by decide), List.singleton_append]

theorem humps_raised {c : Char} (hc : isWordChar c = true) (cs : List Char) :
    humps true true (c :: cs) = c.toUpper :: humps true false cs := by
  obtain ⟨hne, -, hascii⟩ := isWordChar_spec hc
  rw [humps_cons hne, if_pos rfl, upper_ascii hascii, List.singleton_append]

/-- What stands after an underscore: a capital that gives the letter back, or the digit. -/
theorem split_humps_raised {c : Char} (hc : isWordChar c = true) (cs : List Char) :
    split (humps true true (c :: cs)) =
      if c.isDigit then c :: split (humps true false cs)
      else '_' :: c :: split (humps true false cs) := by
  rw [humps_raised hc, split]
  rcases Bool.or_eq_true_iff.mp hc with hlower | hdigit
  · obtain ⟨hcapital, hback, -⟩ := toUpper_of_isLower hlower
    simp [hcapital, hback, isDigit_of_isLower hlower]
  · simp [toUpper_of_isDigit hdigit, (isWordChar_spec hc).2.1, hdigit]

/-- **Splitting at the capitals gives back the identifier**, with its numbers run in. -/
theorem split_humps {cs : List Char} (h : SnakeTail cs) :
    split (humps true false cs) = runIn cs := by
  induction h with
  | nil => rfl
  | char hc _ ih =>
    rw [humps_char hc, split, if_neg (by simp [(isWordChar_spec hc).2.1]), ih, runIn_char hc]
  | underscore hc _ ih =>
    rw [humps_underscore, split_humps_raised hc, ih, runIn_underscore hc]

/-- An underscore before a digit makes no difference to the name. -/
theorem humps_runIn {cs : List Char} (h : SnakeTail cs) :
    humps true false (runIn cs) = humps true false cs := by
  induction h with
  | nil => rfl
  | char hc _ ih => rw [runIn_char hc, humps_char hc, humps_char hc, ih]
  | @underscore c cs hc _ ih =>
    rw [runIn_underscore hc, humps_underscore, humps_raised hc]
    cases hdigit : c.isDigit with
    | true => rw [if_pos rfl, humps_char hc, ih, toUpper_of_isDigit hdigit]
    | false => rw [if_neg (by decide), humps_underscore, humps_raised hc, ih]

theorem dropRawMark_of_snakeCase {cs : List Char} (h : SnakeCase cs) : dropRawMark cs = cs := by
  cases h with
  | @intro c cs hc h =>
    unfold dropRawMark
    split
    · next heq =>
      obtain ⟨-, rfl⟩ := List.cons.inj heq
      cases h with
      | char hc => exact absurd hc (by decide)
    · rfl

theorem isAlpha_of_isLower {c : Char} (h : c.isLower = true) : c.isAlpha = true :=
  Bool.or_eq_true_iff.mpr (.inr h)

theorem isWordChar_of_isLower {c : Char} (h : c.isLower = true) : isWordChar c = true := by
  simp [isWordChar, h]

/-- The first letter of an identifier is the first of its name. -/
theorem camelCase_cons {ident : String} (h : SnakeCase ident.toList) : ∃ c cs,
    ident.toList = c :: cs ∧ c.isLower = true ∧ SnakeTail cs ∧
      (camelCase ident).toList = c :: humps true false cs := by
  generalize hident : ident.toList = chars at h
  have hmark := dropRawMark_of_snakeCase h
  cases h with
  | @intro c cs hc htail =>
    refine ⟨c, cs, rfl, hc, htail, ?_⟩
    rw [camelCase, hident, hmark, String.toList_ofList, humps_char (isWordChar_of_isLower hc)]

/-- **Two identifiers have one name exactly if they are the same with their numbers run in.** -/
theorem camelCase_eq_iff {a b : String} (ha : SnakeCase a.toList) (hb : SnakeCase b.toList) :
    camelCase a = camelCase b ↔ runIn a.toList = runIn b.toList := by
  obtain ⟨x, xs, hx, hxl, hxs, hxname⟩ := camelCase_cons ha
  obtain ⟨y, ys, hy, hyl, hys, hyname⟩ := camelCase_cons hb
  rw [← String.toList_inj, hxname, hyname, hx, hy, runIn_char (isWordChar_of_isLower hxl),
    runIn_char (isWordChar_of_isLower hyl), List.cons.injEq, List.cons.injEq]
  refine and_congr_right fun _ => ⟨fun h => ?_, fun h => ?_⟩
  · rw [← split_humps hxs, h, split_humps hys]
  · rw [← humps_runIn hxs, h, humps_runIn hys]

/-! ### Names that may be declared -/

theorem isAlphanum_of_humps {cs : List Char} (h : SnakeTail cs) {x : Char}
    (hx : x ∈ humps true false cs) : x.isAlpha = true ∨ x.isDigit = true := by
  induction h with
  | nil => cases hx
  | @char c cs hc _ ih =>
    rw [humps_char hc] at hx
    rcases List.mem_cons.mp hx with rfl | hx
    · exact (Bool.or_eq_true_iff.mp hc).imp_left isAlpha_of_isLower
    · exact ih hx
  | @underscore c cs hc _ ih =>
    rw [humps_underscore, humps_raised hc] at hx
    rcases List.mem_cons.mp hx with rfl | hx
    · refine (Bool.or_eq_true_iff.mp hc).imp (fun hlower => ?_) fun hdigit => ?_
      · exact (toUpper_of_isLower hlower).2.2
      · rwa [toUpper_of_isDigit hdigit]
    · exact ih hx

/-- **The name of an identifier may be declared.** -/
theorem declarable_camelCase {ident : String} (h : SnakeCase ident.toList) :
    Declarable (camelCase ident) := by
  obtain ⟨c, cs, -, hc, hcs, hname⟩ := camelCase_cons h
  have hletter : IsLetter c := (isAlpha_iff c).mp (isAlpha_of_isLower hc)
  refine ⟨⟨c, _, hname, .inl hletter, fun x hx => ?_⟩, fun hprefix => ?_⟩
  · rcases isAlphanum_of_humps hcs hx with hx | hx
    · exact .inl ((isAlpha_iff x).mp hx)
    · exact .inr (.inl ((isDigit_iff x).mp hx))
  · obtain ⟨rest, heq⟩ := hprefix
    rw [hname] at heq
    obtain ⟨rfl, -⟩ := List.cons.inj heq
    exact absurd hc (by decide)

end GraphSchema.Text
