import Mathlib.Tactic.Common
import SourceStepper.Toml.Text

/-! A text is read back from each of the forms that it is written in, and what follows it is left as
it is. -/
namespace SourceStepper.Toml

/-- What stands for a character between double quotes. -/
inductive Spelling : List Char → Char → Prop
  | plain {c : Char} (plain : c ≠ '\\') : Spelling [c] c
  | letter {e c : Char} (means : escaped? e = some c) : Spelling ['\\', e] c
  | number {a b c d x : Char} (digits : ∀ y ∈ [a, b, c, d], y.isAlphanum = true)
      (means : ofHex? [a, b, c, d] = some x) : Spelling ['\\', 'u', a, b, c, d] x

/-! ### Reading between double quotes -/

theorem inLine_alphanum {c : Char} (alphanumeric : c.isAlphanum = true) : isInLine c = true := by
  unfold Char.isAlphanum Char.isAlpha Char.isUpper Char.isLower Char.isDigit at alphanumeric
  simp only [Bool.or_eq_true, Bool.and_eq_true, decide_eq_true_eq, ge_iff_le,
    UInt32.le_iff_toNat_le] at alphanumeric
  simp only [isInLine, Bool.or_eq_true, Bool.and_eq_true, decide_eq_true_eq]
  have same : c.val.toNat = c.toNat := rfl
  simp at alphanumeric
  omega

theorem plain_alphanum {c : Char} (alphanumeric : c.isAlphanum = true) : c ≠ '"' ∧ c ≠ '\\' :=
  ⟨by rintro rfl; contradiction, by rintro rfl; contradiction⟩

theorem unescape?_plain {c : Char} (plain : c ≠ '\\') (long : Bool) (rest : List Char) :
    unescape? long (c :: rest) = (unescape? long rest).map (c :: ·) := by
  rw [unescape?.eq_def]
  split <;> simp_all

theorem unescape?_letter {e c : Char} (means : escaped? e = some c) (long : Bool)
    (rest : List Char) :
    unescape? long ('\\' :: e :: rest) = (unescape? long rest).map (c :: ·) := by
  have other : e ≠ 'x' ∧ e ≠ 'u' ∧ e ≠ 'U' :=
    ⟨by rintro rfl; contradiction, by rintro rfl; contradiction, by rintro rfl; contradiction⟩
  rw [unescape?.eq_def]
  split <;> grind

theorem Spelling.unescape?_eq {w : List Char} {c : Char} (spelled : Spelling w c) (long : Bool)
    (rest : List Char) : unescape? long (w ++ rest) = (unescape? long rest).map (c :: ·) := by
  cases spelled with
  | plain plain => exact unescape?_plain plain long rest
  | letter means => exact unescape?_letter means long rest
  | number _ means =>
    simp only [List.cons_append, List.nil_append, unescape?, means]
    cases unescape? long rest <;> rfl

theorem cutBasic?_plain {c : Char} (plain : c ≠ '"' ∧ c ≠ '\\') (rest : List Char) :
    cutBasic? (c :: rest) = (cutBasic? rest).map fun (body, tail) => (c :: body, tail) := by
  rw [cutBasic?.eq_def]
  split <;> simp_all

theorem cutBasic?_escaped (c : Char) (rest : List Char) :
    cutBasic? ('\\' :: c :: rest) = (cutBasic? rest).map fun (body, tail) =>
      ('\\' :: c :: body, tail) := by
  rw [cutBasic?]

theorem Spelling.cutBasic?_eq {w : List Char} {c : Char} (spelled : Spelling w c)
    (unquoted : w ≠ ['"']) (rest : List Char) :
    cutBasic? (w ++ rest) = (cutBasic? rest).map fun (body, tail) => (w ++ body, tail) := by
  cases spelled with
  | plain plain => exact cutBasic?_plain ⟨by simpa using unquoted, plain⟩ rest
  | letter => exact cutBasic?_escaped _ rest
  | number digits =>
    simp only [List.forall_mem_cons] at digits
    obtain ⟨a, b, c, d, -⟩ := digits
    simp only [List.cons_append, List.nil_append, cutBasic?_escaped,
      cutBasic?_plain (plain_alphanum a), cutBasic?_plain (plain_alphanum b),
      cutBasic?_plain (plain_alphanum c), cutBasic?_plain (plain_alphanum d),
      Option.map_map]
    rfl

theorem cutLong?_plain {quote c : Char} {escapes : Bool} {rest : List Char}
    (opened : ¬ (c = quote ∧ rest.take 2 = [quote, quote])) (plain : escapes = true → c ≠ '\\') :
    cutLong? quote escapes (c :: rest) =
      (cutLong? quote escapes rest).map fun (body, tail) => (c :: body, tail) := by
  have closing : (decide (c = quote) && decide (rest.take 2 = [quote, quote])) = false := by
    simpa using opened
  have escape : (escapes && decide (c = '\\')) = false := by simpa using plain
  rw [cutLong?.eq_def]
  simp [closing, escape]

theorem cutLong?_escaped (c : Char) (rest : List Char) :
    cutLong? '"' true ('\\' :: c :: rest) =
      (cutLong? '"' true rest).map fun (body, tail) => ('\\' :: c :: body, tail) := by
  simp [cutLong?]

theorem Spelling.cutLong?_eq {w : List Char} {c : Char} (spelled : Spelling w c)
    (unquoted : w ≠ ['"']) (rest : List Char) :
    cutLong? '"' true (w ++ rest) = (cutLong? '"' true rest).map fun (body, tail) =>
      (w ++ body, tail) := by
  have digit {y : Char} (alphanumeric : y.isAlphanum = true) (rest : List Char) :
      cutLong? '"' true (y :: rest) = (cutLong? '"' true rest).map fun (body, tail) =>
        (y :: body, tail) :=
    cutLong?_plain (fun same => (plain_alphanum alphanumeric).1 same.1) fun _ =>
      (plain_alphanum alphanumeric).2
  cases spelled with
  | plain plain => exact cutLong?_plain (fun same => unquoted (by rw [same.1])) fun _ => plain
  | letter => exact cutLong?_escaped _ rest
  | number digits =>
    simp only [List.forall_mem_cons] at digits
    obtain ⟨a, b, c, d, -⟩ := digits
    simp only [List.cons_append, List.nil_append, cutLong?_escaped, digit a, digit b,
      digit c, digit d, Option.map_map]
    rfl

/-- Of the quotes at the end of a text on several lines, the last three close it. -/
theorem cutLong?_end {quote : Char} (escapes : Bool) {n : Nat} (few : n ≤ 2) {tail : List Char}
    (other : tail.head? ≠ some quote) :
    cutLong? quote escapes (List.replicate (n + 3) quote ++ tail) =
      some (List.replicate n quote, tail) := by
  have none : tail.takeWhile (· = quote) = [] := by
    cases tail with
    | nil => rfl
    | cons c tail =>
      have first : c ≠ quote := by simpa using other
      simp [first]
  obtain rfl | rfl | rfl : n = 0 ∨ n = 1 ∨ n = 2 := by omega
  all_goals simp [cutLong?, List.replicate, none]

/-! ### Writing between double quotes -/

theorem control_digits : ∀ n, n < 128 → isControl (Char.ofNat n) = true →
    let digits := Text.padZero 4 ((Text.hexNat (Char.ofNat n).toNat).map Char.toUpper)
    digits.length = 4 ∧ digits.all Char.isAlphanum = true ∧
      ofHex? digits = some (Char.ofNat n) := by
  decide

theorem control_small {c : Char} (control : isControl c = true) : c.toNat < 128 := by
  simp only [isControl, Bool.or_eq_true, Bool.and_eq_true, decide_eq_true_eq] at control
  omega

theorem spelling_escape (c : Char) : Spelling (escape c) c := by
  unfold escape
  split
  · next same => subst same; exact .letter rfl
  split
  · next same => subst same; exact .letter rfl
  split
  · next same => subst same; exact .letter rfl
  split
  · next same => subst same; exact .letter rfl
  split
  · next same => subst same; exact .letter rfl
  next notBackslash =>
  split
  · next control =>
    have known := control_digits c.toNat (control_small control)
    rw [Char.ofNat_toNat] at known
    obtain ⟨four, alphanumeric, means⟩ := known control
    generalize Text.padZero 4 ((Text.hexNat c.toNat).map Char.toUpper) = digits at *
    match digits, four with
    | [a, b, c, d], _ => exact .number (List.all_eq_true.mp alphanumeric) means
  · exact .plain notBackslash

theorem line_of_visible {c : Char} (visible : isControl c = false) :
    c = '\n' ∨ isInLine c = true := by
  simp only [isControl, Bool.or_eq_false_iff, Bool.and_eq_false_iff,
    decide_eq_false_iff_not] at visible
  simp only [isInLine, Bool.or_eq_true, Bool.and_eq_true, decide_eq_true_eq]
  grind

theorem visible_of_escape {c : Char} (itself : escape c = [c]) : isControl c = false := by
  unfold escape at itself
  split_ifs at itself <;> simp_all

theorem line_letter : ∀ {e c : Char}, escaped? e = some c → isInLine e = true := by
  intro e c means
  unfold escaped? at means
  split at means <;> first | rfl | contradiction

theorem Spelling.line {w : List Char} {c d : Char} (spelled : Spelling w c) (within : d ∈ w)
    (other : w ≠ [c]) : isInLine d = true := by
  cases spelled with
  | plain => exact absurd rfl other
  | letter means =>
    simp only [List.mem_cons, List.not_mem_nil, or_false] at within
    rcases within with rfl | rfl
    · rfl
    · exact line_letter means
  | number digits =>
    rcases List.mem_cons.mp within with rfl | within
    · rfl
    rcases List.mem_cons.mp within with rfl | within
    · rfl
    · exact inLine_alphanum (digits d within)

theorem line_escape {c d : Char} (within : d ∈ escape c) :
    d = '\n' ∧ c = '\n' ∨ isInLine d = true := by
  by_cases itself : escape c = [c]
  · have visible := line_of_visible (visible_of_escape itself)
    rw [itself, List.mem_singleton] at within
    subst within
    exact visible.imp_left fun same => ⟨same, same⟩
  · exact .inr ((spelling_escape c).line within itself)

def escapeInLine (c : Char) : List Char :=
  if c = '"' then ['\\', '"'] else if c = '\n' then ['\\', 'n'] else escape c

theorem escapeShort_cons (c : Char) (cs : List Char) :
    escapeShort (c :: cs) = escapeInLine c ++ escapeShort cs := rfl

theorem spelling_inLine (c : Char) : Spelling (escapeInLine c) c := by
  unfold escapeInLine
  split
  · next same => subst same; exact .letter rfl
  split
  · next same => subst same; exact .letter rfl
  · exact spelling_escape c

theorem line_inLine {c d : Char} (within : d ∈ escapeInLine c) : isInLine d = true := by
  unfold escapeInLine at within
  split at within
  · simp only [List.mem_cons, List.not_mem_nil, or_false] at within
    rcases within with rfl | rfl <;> rfl
  split at within
  · simp only [List.mem_cons, List.not_mem_nil, or_false] at within
    rcases within with rfl | rfl <;> rfl
  next notEnd => exact (line_escape within).resolve_left fun ends => notEnd ends.2

theorem Spelling.starts {w : List Char} {c : Char} (spelled : Spelling w c) :
    w = [c] ∨ ∃ rest, w = '\\' :: rest := by
  cases spelled with
  | plain => exact .inl rfl
  | letter => exact .inr ⟨_, rfl⟩
  | number => exact .inr ⟨_, rfl⟩

def Unquoted (w : List Char) : Prop := ∃ d rest, w = d :: rest ∧ d ≠ '"'

theorem Unquoted.ne_quote {w : List Char} (unquoted : Unquoted w) : w ≠ ['"'] := by
  obtain ⟨d, rest, rfl, other⟩ := unquoted
  intro same
  exact other (List.cons.inj same).1

theorem Unquoted.append {w : List Char} (unquoted : Unquoted w) (tail : List Char) :
    Unquoted (w ++ tail) := by
  obtain ⟨d, rest, rfl, other⟩ := unquoted
  exact ⟨d, rest ++ tail, rfl, other⟩

theorem Unquoted.opens {w : List Char} (unquoted : Unquoted w) : w.take 2 ≠ ['"', '"'] := by
  obtain ⟨d, rest, rfl, other⟩ := unquoted
  simp [other]

theorem Unquoted.behind {w : List Char} (unquoted : Unquoted w) :
    ('"' :: w).take 2 ≠ ['"', '"'] := by
  obtain ⟨d, rest, rfl, other⟩ := unquoted
  simp [other]

theorem escape_unquoted {c : Char} (other : c ≠ '"') : Unquoted (escape c) := by
  rcases (spelling_escape c).starts with itself | ⟨rest, escaped⟩
  · exact ⟨c, [], itself, other⟩
  · exact ⟨'\\', rest, escaped, by decide⟩

theorem inLine_unquoted (c : Char) : Unquoted (escapeInLine c) := by
  unfold escapeInLine
  split
  · exact ⟨_, _, rfl, by decide⟩
  split
  · exact ⟨_, _, rfl, by decide⟩
  next other _ => exact escape_unquoted other

theorem unescape?_escapeShort (long : Bool) (cs : List Char) :
    unescape? long (escapeShort cs) = some cs := by
  induction cs with
  | nil => simp [escapeShort, unescape?]
  | cons c cs ih => rw [escapeShort_cons, (spelling_inLine c).unescape?_eq, ih, Option.map_some]

theorem cutBasic?_escapeShort (cs tail : List Char) :
    cutBasic? (escapeShort cs ++ '"' :: tail) = some (escapeShort cs, tail) := by
  induction cs with
  | nil => simp [escapeShort, cutBasic?]
  | cons c cs ih =>
    rw [escapeShort_cons, List.append_assoc,
      (spelling_inLine c).cutBasic?_eq (inLine_unquoted c).ne_quote, ih, Option.map_some]

theorem line_escapeShort {cs : List Char} {d : Char} (within : d ∈ escapeShort cs) :
    isInLine d = true := by
  induction cs with
  | nil => cases within
  | cons c cs ih =>
    rw [escapeShort_cons, List.mem_append] at within
    exact within.elim line_inLine ih

/-! ### Several lines between double quotes -/

theorem escapeLong_cons {c : Char} (other : c ≠ '"') (run : Nat) (cs : List Char) :
    escapeLong run (c :: cs) = escape c ++ escapeLong 0 cs := if_neg other

theorem escapeLong_quote {run : Nat} (few : run ≠ 2) (cs : List Char) :
    escapeLong run ('"' :: cs) = '"' :: escapeLong (run + 1) cs := by
  rw [escapeLong, if_pos rfl, if_neg few]

theorem escapeLong_third (cs : List Char) :
    escapeLong 2 ('"' :: cs) = '\\' :: '"' :: escapeLong 0 cs := rfl

theorem unescape?_escapeLong (run : Nat) (cs : List Char) :
    unescape? true (escapeLong run cs) = some cs := by
  induction cs generalizing run with
  | nil => simp [escapeLong, unescape?]
  | cons c cs ih =>
    by_cases quote : c = '"'
    · subst quote
      by_cases third : run = 2
      · subst third
        rw [escapeLong_third, unescape?_letter rfl, ih, Option.map_some]
      · rw [escapeLong_quote third, unescape?_plain (by decide), ih, Option.map_some]
    · rw [escapeLong_cons quote, (spelling_escape c).unescape?_eq, ih, Option.map_some]

theorem line_escapeLong {run : Nat} {cs : List Char} {d : Char} (within : d ∈ escapeLong run cs) :
    d = '\n' ∧ '\n' ∈ cs ∨ isInLine d = true := by
  induction cs generalizing run with
  | nil => cases within
  | cons c cs ih =>
    have later {run : Nat} (within : d ∈ escapeLong run cs) :
        d = '\n' ∧ '\n' ∈ c :: cs ∨ isInLine d = true :=
      (ih within).imp_left fun ends => ⟨ends.1, List.mem_cons_of_mem _ ends.2⟩
    by_cases quote : c = '"'
    · subst quote
      by_cases third : run = 2
      · subst third
        rw [escapeLong_third, List.mem_cons, List.mem_cons] at within
        rcases within with rfl | rfl | within
        · exact .inr rfl
        · exact .inr rfl
        · exact later within
      · rw [escapeLong_quote third, List.mem_cons] at within
        rcases within with rfl | within
        · exact .inr rfl
        · exact later within
    · rw [escapeLong_cons quote, List.mem_append] at within
      rcases within with within | within
      · exact (line_escape within).imp_left fun ⟨ends, same⟩ => ⟨ends, same ▸ List.mem_cons_self ..⟩
      · exact later within

theorem other_starts {c : Char} (other : c ≠ '"') (run : Nat) (cs : List Char) :
    Unquoted (escapeLong run (c :: cs)) := by
  rw [escapeLong_cons other]
  exact (escape_unquoted other).append _

theorem third_escaped (cs : List Char) : escapeLong 2 cs = [] ∨ Unquoted (escapeLong 2 cs) := by
  cases cs with
  | nil => exact .inl rfl
  | cons c cs =>
    by_cases quote : c = '"'
    · subst quote
      exact .inr ⟨'\\', _, escapeLong_third cs, by decide⟩
    · exact .inr (other_starts quote 2 cs)

/-- Behind a quote, two more of them do not follow within the text. -/
theorem behind_quote {run : Nat} (few : run < 2) (cs : List Char) :
    escapeLong (run + 1) cs = [] ∨ escapeLong (run + 1) cs = ['"'] ∨
      ∀ tail, (escapeLong (run + 1) cs ++ tail).take 2 ≠ ['"', '"'] := by
  obtain rfl | rfl : run = 0 ∨ run = 1 := by omega
  · cases cs with
    | nil => exact .inl rfl
    | cons c cs =>
      by_cases quote : c = '"'
      · subst quote
        rw [escapeLong_quote (by decide)]
        rcases third_escaped cs with nothing | unquoted
        · exact .inr (.inl (by rw [nothing]))
        · exact .inr (.inr fun tail => (unquoted.append tail).behind)
      · exact .inr (.inr fun tail => ((other_starts quote 1 cs).append tail).opens)
  · rcases third_escaped cs with nothing | unquoted
    · exact .inl nothing
    · exact .inr (.inr fun tail => (unquoted.append tail).opens)

theorem cutLong?_escapeLong {run : Nat} (few : run ≤ 2) (cs : List Char) {tail : List Char}
    (other : tail.head? ≠ some '"') :
    cutLong? '"' true (escapeLong run cs ++ (List.replicate 3 '"' ++ tail)) =
      some (escapeLong run cs, tail) := by
  induction cs generalizing run with
  | nil => exact cutLong?_end true (by decide : 0 ≤ 2) other
  | cons c cs ih =>
    by_cases quote : c = '"'
    · subst quote
      by_cases third : run = 2
      · subst third
        rw [escapeLong_third, List.cons_append, List.cons_append, cutLong?_escaped, ih (by decide),
          Option.map_some]
      · rw [escapeLong_quote third, List.cons_append]
        rcases behind_quote (show run < 2 by omega) cs with nothing | single | inside
        · rw [nothing]
          exact cutLong?_end true (by decide : 1 ≤ 2) other
        · rw [single]
          exact cutLong?_end true (by decide : 2 ≤ 2) other
        · rw [cutLong?_plain (fun closes => inside _ closes.2) (by decide), ih (by omega),
            Option.map_some]
    · rw [escapeLong_cons quote, List.append_assoc,
        (spelling_escape c).cutLong?_eq (escape_unquoted quote).ne_quote, ih (by decide),
        Option.map_some]

/-! ### Between single quotes -/

theorem cutLiteral?_unquoted {cs : List Char} (unquoted : '\'' ∉ cs) (tail : List Char) :
    cutLiteral? (cs ++ '\'' :: tail) = some (cs, tail) := by
  induction cs with
  | nil => simp [cutLiteral?]
  | cons c cs ih =>
    rw [List.cons_append, cutLiteral?]
    · rw [ih fun within => unquoted (List.mem_cons_of_mem _ within), Option.map_some]
    · exact fun same => unquoted (same ▸ List.mem_cons_self ..)

theorem hasRun_cons {quote c : Char} {cs : List Char} (runless : hasRun quote (c :: cs) = false) :
    ¬ (c = quote ∧ cs.take 2 = [quote, quote]) ∧ hasRun quote cs = false := by
  simp only [hasRun, Text.cutAt?, Text.dropPrefix?, Option.isSome_eq_false_iff,
    Option.isNone_iff_eq_none] at runless ⊢
  split at runless
  · contradiction
  next none =>
    refine ⟨?_, Option.map_eq_none_iff.mp runless⟩
    rintro ⟨rfl, follow⟩
    match cs, follow with
    | d :: e :: cs, follow =>
      obtain ⟨rfl, rfl⟩ : d = c ∧ e = c := by simpa using follow
      simp [List.replicate] at none

theorem cutLong?_runless {cs : List Char} (runless : hasRun '\'' cs = false) {tail : List Char}
    (other : tail.head? ≠ some '\'') :
    cutLong? '\'' false (cs ++ (List.replicate 3 '\'' ++ tail)) = some (cs, tail) := by
  induction cs with
  | nil => exact cutLong?_end false (by decide : 0 ≤ 2) other
  | cons c cs ih =>
    obtain ⟨noRun, later⟩ := hasRun_cons runless
    by_cases closes : c = '\'' ∧ (cs ++ (List.replicate 3 '\'' ++ tail)).take 2 = ['\'', '\'']
    · -- the closing quotes follow, since there are not enough quotes in the text
      obtain ⟨rfl, follow⟩ := closes
      match cs with
      | [] => exact cutLong?_end false (by decide : 1 ≤ 2) other
      | [d] =>
        obtain rfl : d = '\'' := by simpa using follow
        exact cutLong?_end false (by decide : 2 ≤ 2) other
      | d :: e :: cs => exact absurd ⟨rfl, by simpa using follow⟩ noRun
    · rw [List.cons_append, cutLong?_plain closes (by simp), ih later, Option.map_some]

/-! ### The forms -/

/-- What stands between the opening quotes and a text on several lines: a line end, so that the one
that a text can start with is not dropped. -/
def lineBefore (cs : List Char) : List Char := if cs.contains '\n' then ['\n'] else []

/-- The ways to write a text. -/
inductive Form (cs : List Char) : List Char → Prop
  | short : Form cs ('"' :: (escapeShort cs ++ ['"']))
  | literal (notEmpty : cs ≠ []) (unquoted : '\'' ∉ cs) (line : ∀ c ∈ cs, isInLine c = true) :
    Form cs ('\'' :: (cs ++ ['\'']))
  | long :
    Form cs (List.replicate 3 '"' ++ (lineBefore cs ++ (escapeLong 0 cs ++ List.replicate 3 '"')))
  | longLiteral (runless : hasRun '\'' cs = false) (visible : ∀ c ∈ cs, isControl c = false) :
    Form cs (List.replicate 3 '\'' ++ (lineBefore cs ++ (cs ++ List.replicate 3 '\'')))

theorem form_writeText (s : String) : Form s.toList (writeText s).toList := by
  unfold writeText
  generalize s.toList = cs
  simp only [String.toList_ofList, List.append_assoc]
  split
  · exact .short
  next notPlain =>
  split
  · next literal =>
    simp only [Bool.and_eq_true, Bool.not_eq_true', List.any_eq_false, Bool.not_eq_true,
      List.contains_eq_mem, decide_eq_false_iff_not] at literal
    obtain ⟨⟨visible, unquoted⟩, oneLine⟩ := literal
    refine .literal ?_ unquoted fun c within => ?_
    · rintro rfl
      exact notPlain rfl
    · exact (line_of_visible (visible c within)).resolve_left fun ends => oneLine (ends ▸ within)
  split
  · exact .long
  split
  · next literal =>
    simp only [Bool.and_eq_true, Bool.not_eq_true', List.any_eq_false, Bool.not_eq_true] at literal
    exact .longLiteral literal.2 literal.1
  split
  · next ends =>
    have line : lineBefore cs = ['\n'] := if_pos ends
    have written : Form cs _ := .long
    simpa [line, ends] using written
  · exact .short

section Long
variable {quote : Char} {cs body : List Char}

/-- Only lines and line ends stand between the quotes, and no line end if there is none in
the text. -/
def Lines (cs body : List Char) : Prop := ∀ d ∈ body, d = '\n' ∧ '\n' ∈ cs ∨ isInLine d = true

theorem Lines.isLines (lines : Lines cs body) : isLines body = true := by
  induction body using isLines.induct with
  | case1 => rfl
  | case2 rest ih =>
    have returns := lines '\r' (by simp)
    simp [isInLine] at returns
  | case3 c rest notEnd ih =>
    rw [Toml.isLines]
    · have first := (lines c (List.mem_cons_self ..)).imp_left And.left
      simpa [ih fun d within => lines d (List.mem_cons_of_mem _ within)] using first
    · exact notEnd

theorem dropLineEnd?_inLine {c : Char} (line : isInLine c = true) (rest : List Char) :
    dropLineEnd? (c :: rest) = none := by
  unfold dropLineEnd?
  split
  · next same => rw [(List.cons.inj same).1] at line; contradiction
  · next same => rw [(List.cons.inj same).1] at line; contradiction
  · rfl

theorem Lines.dropLineEnd (lines : Lines cs body) (mark : isInLine quote = true)
    (tail : List Char) :
    let rest := body ++ (List.replicate 3 quote ++ tail)
    (dropLineEnd? (lineBefore cs ++ rest)).getD (lineBefore cs ++ rest) = rest := by
  by_cases ends : '\n' ∈ cs
  · have before : lineBefore cs = ['\n'] := if_pos (by simpa using ends)
    rw [before]
    rfl
  · have before : lineBefore cs = [] := if_neg (by simpa using ends)
    rw [before]
    have start : ∃ c rest, body ++ (List.replicate 3 quote ++ tail) = c :: rest ∧
        isInLine c = true := by
      cases body with
      | nil => exact ⟨quote, _, rfl, mark⟩
      | cons c body =>
        exact ⟨c, _, rfl, (lines c (List.mem_cons_self ..)).resolve_left fun at_end =>
          ends at_end.2⟩
    obtain ⟨c, rest, same, line⟩ := start
    simp only [List.nil_append, same, dropLineEnd?_inLine line, Option.getD_none]

end Long

theorem readText?_oneLine {quote : Char} {rest : List Char} (few : rest.take 2 ≠ [quote, quote]) :
    readText? (quote :: rest) = readText?.readShort? (quote :: rest) := by
  unfold readText?
  split
  · next same =>
    obtain ⟨rfl, rfl⟩ := List.cons.inj same
    exact absurd rfl few
  · next same =>
    obtain ⟨rfl, rfl⟩ := List.cons.inj same
    exact absurd rfl few
  · rfl

theorem readText?_short (cs : List Char) {tail : List Char} (other : tail.head? ≠ some '"') :
    readText? ('"' :: (escapeShort cs ++ '"' :: tail)) = some (String.ofList cs, tail) := by
  have few : (escapeShort cs ++ '"' :: tail).take 2 ≠ ['"', '"'] := by
    cases cs with
    | nil =>
      cases tail with
      | nil => simp [escapeShort]
      | cons c tail =>
        have next : c ≠ '"' := by simpa using other
        simp [escapeShort, next]
    | cons c cs =>
      rw [escapeShort_cons]
      exact (((inLine_unquoted c).append _).append _).opens
  have line : (escapeShort cs).all isInLine = true := List.all_eq_true.mpr fun d => line_escapeShort
  rw [readText?_oneLine few, readText?.readShort?, cutBasic?_escapeShort, Option.bind_eq_bind,
    Option.bind_some]
  simp only [line, if_true, unescape?_escapeShort]
  rfl

theorem readText?_literal {cs : List Char} (notEmpty : cs ≠ []) (unquoted : '\'' ∉ cs)
    (line : ∀ c ∈ cs, isInLine c = true) (tail : List Char) :
    readText? ('\'' :: (cs ++ '\'' :: tail)) = some (String.ofList cs, tail) := by
  have few : (cs ++ '\'' :: tail).take 2 ≠ ['\'', '\''] := by
    cases cs with
    | nil => contradiction
    | cons c cs =>
      have first : c ≠ '\'' := fun same => unquoted (same ▸ List.mem_cons_self ..)
      simp [first]
  rw [readText?_oneLine few, readText?.readShort?, cutLiteral?_unquoted unquoted,
    Option.bind_eq_bind, Option.bind_some]
  exact if_pos (List.all_eq_true.mpr line)

theorem readText?_long (cs : List Char) {tail : List Char} (other : tail.head? ≠ some '"') :
    readText? (List.replicate 3 '"' ++
      (lineBefore cs ++ (escapeLong 0 cs ++ (List.replicate 3 '"' ++ tail)))) =
      some (String.ofList cs, tail) := by
  have lines : Lines cs (escapeLong 0 cs) := fun d within => line_escapeLong within
  have dropped := lines.dropLineEnd (rfl : isInLine '"' = true) tail
  have cut := cutLong?_escapeLong (by decide : 0 ≤ 2) cs other
  simp only [List.replicate, List.cons_append, List.nil_append] at dropped cut ⊢
  rw [readText?, dropped, cut, Option.bind_eq_bind, Option.bind_some]
  simp only [lines.isLines, if_true, unescape?_escapeLong]
  rfl

theorem readText?_longLiteral {cs : List Char} (runless : hasRun '\'' cs = false)
    (visible : ∀ c ∈ cs, isControl c = false) {tail : List Char} (other : tail.head? ≠ some '\'') :
    readText?
      (List.replicate 3 '\'' ++ (lineBefore cs ++ (cs ++ (List.replicate 3 '\'' ++ tail)))) =
      some (String.ofList cs, tail) := by
  have lines : Lines cs cs := fun d within =>
    (line_of_visible (visible d within)).imp_left fun ends => ⟨ends, ends ▸ within⟩
  have dropped := lines.dropLineEnd (rfl : isInLine '\'' = true) tail
  have cut := cutLong?_runless runless other
  simp only [List.replicate, List.cons_append, List.nil_append] at dropped cut ⊢
  rw [readText?, dropped, cut, Option.bind_eq_bind, Option.bind_some]
  exact if_pos lines.isLines

/-- What has been written is read, unless a quote follows it. -/
theorem readText?_writeText (s : String) {tail : List Char} (double : tail.head? ≠ some '"')
    (single : tail.head? ≠ some '\'') :
    readText? ((writeText s).toList ++ tail) = some (s, tail) := by
  have form := form_writeText s
  generalize (writeText s).toList = w at form
  rw [← String.ofList_toList (s := s)]
  generalize s.toList = cs at form
  cases form with
  | short => simpa using readText?_short cs double
  | literal notEmpty unquoted line => simpa using readText?_literal notEmpty unquoted line tail
  | long => simpa using readText?_long cs double
  | longLiteral runless visible => simpa using readText?_longLiteral runless visible single

end SourceStepper.Toml
