import Mathlib.Data.List.TakeWhile
import Mathlib.Tactic.Common
import SchedulerLm.Base.Except

/-!
# JSON

Documents (`Value`) and their decoder, which reads a text from left to right
(`loads`). As in Python, a text is accepted that is a bit more than JSON (`NaN`,
`Infinity`), an integer has at most 4300 digits, and values are nested up to some
depth, the limit on recursion.

The values of a list, and the fields of an object, are read one after another, with
a bound on their number, the length of the text. As a value reads something
(`progress_value`), this bound is never met: any larger one gives the same
(`loadsWith_eq`).
-/

namespace Json

/-- A string: a text, unless half of a surrogate pair is in it. -/
inductive Str
  | text (s : String)
  | broken
  deriving DecidableEq

/-- A document. The number of a float is left as it is written. -/
inductive Value
  | null
  | bool (b : Bool)
  | int (n : Int)
  | float (literal : List Char)
  | str (s : Str)
  | arr (items : List Value)
  | obj (fields : List (Str × Value))

/-- The document is an object. -/
def Value.isObject : Value → Bool
  | obj _ => true
  | _ => false

theorem Value.isObject_iff {v : Value} : v.isObject = true ↔ ∃ fields, v = .obj fields := by
  cases v <;> simp [isObject]

/-- What is raised: `JSONDecodeError`, the `ValueError` of an integer with too many
    digits, and `RecursionError`. -/
inductive Error
  | decode
  | digits
  | recursion
  deriving DecidableEq

/-- A decoder, of the front of a text. -/
abbrev Decoder (α : Type) := List Char → Except Error (α × List Char)

/-- The field of a name; the last one counts. -/
def field (name : String) (fields : List (Str × Value)) : Option Value :=
  fields.reverse.lookup (.text name)

/-! ## Strings -/

/-- The value of hexadecimal digits. -/
def hex (cs : List Char) : Option ℕ :=
  (cs.mapM fun c => "0123456789abcdef".toList.idxOf? c.toLower).map fun ds =>
    ds.foldl (fun n d => n * 16 + d) 0

/-- The character an escape stands for. -/
def escape (c : Char) : Option ℕ :=
  [('"', 34), ('\\', 92), ('/', 47), ('b', 8), ('f', 12), ('n', 10), ('r', 13), ('t', 9)].lookup c

/-- The characters of a string up to its closing quote, with halves of surrogate pairs. -/
def units : List Char → Option (List ℕ × List Char)
  | [] => none
  | '"' :: cs => some ([], cs)
  | '\\' :: 'u' :: a :: b :: c :: d :: cs =>
    (hex [a, b, c, d]).bind fun n => (units cs).map fun (ns, rest) => (n :: ns, rest)
  | '\\' :: c :: cs => (escape c).bind fun n => (units cs).map fun (ns, rest) => (n :: ns, rest)
  | c :: cs =>
    if c = '\\' ∨ c.toNat < 32 then none else (units cs).map fun (ns, rest) => (c.toNat :: ns, rest)

/-- Pairs of surrogates are put together. -/
def joinPairs : List ℕ → List ℕ
  | hi :: lo :: ns =>
    if 0xD800 ≤ hi ∧ hi < 0xDC00 ∧ 0xDC00 ≤ lo ∧ lo < 0xE000 then
      (0x10000 + (hi - 0xD800) * 0x400 + (lo - 0xDC00)) :: joinPairs ns
    else hi :: joinPairs (lo :: ns)
  | ns => ns

/-- The string of some characters. -/
def Str.ofUnits (ns : List ℕ) : Str :=
  let ns := joinPairs ns
  if ns.all fun n => decide n.isValidChar then .text (.ofList (ns.map Char.ofNat)) else .broken

/-- A string, after its opening quote. -/
def string : Decoder Str := fun cs =>
  match units cs with
  | none => .error .decode
  | some (ns, rest) => .ok (.ofUnits ns, rest)

/-! ## Numbers -/

/-- A sign, if there is one. -/
def signPart : List Char → List Char × List Char
  | '-' :: cs => (['-'], cs)
  | cs => ([], cs)

/-- The digits of an integer: `0`, or digits that do not start with it. -/
def integerPart : List Char → List Char × List Char
  | '0' :: cs => (['0'], cs)
  | cs => (cs.takeWhile Char.isDigit, cs.dropWhile Char.isDigit)

/-- A fraction, if there is one. -/
def fractionPart : List Char → List Char × List Char
  | '.' :: cs =>
    if cs.head?.any Char.isDigit then ('.' :: cs.takeWhile Char.isDigit, cs.dropWhile Char.isDigit)
    else ([], '.' :: cs)
  | cs => ([], cs)

/-- An exponent, if there is one. -/
def exponentPart : List Char → List Char × List Char
  | [] => ([], [])
  | e :: cs =>
    let sign := cs.head?.filter fun c => c = '+' || c = '-'
    -- The sign is read with digits after it only.
    let ds := cs.drop sign.toList.length
    if (e = 'e' ∨ e = 'E') ∧ ds.head?.any Char.isDigit then
      (e :: sign.toList ++ ds.takeWhile Char.isDigit, ds.dropWhile Char.isDigit)
    else ([], e :: cs)

/-- The value of decimal digits. -/
def decimal (ds : List Char) : ℕ := ds.foldl (fun n c => n * 10 + (c.toNat - '0'.toNat)) 0

/-- A number: an integer, unless it has a fraction or an exponent. -/
def number : Decoder Value := fun cs =>
  let (sign, cs) := signPart cs
  let (ds, cs) := integerPart cs
  if ds = [] then .error .decode
  else
    let (fraction, cs) := fractionPart cs
    let (exponent, cs) := exponentPart cs
    -- The limit on the digits is one of `int`, and not of `float`.
    if fraction ++ exponent ≠ [] then .ok (.float (sign ++ ds ++ fraction ++ exponent), cs)
    else if 4300 < ds.length then .error .digits
    else .ok (.int (if sign = [] then decimal ds else -decimal ds), cs)

/-! ## Values -/

/-- White space is passed over. -/
def skip (cs : List Char) : List Char :=
  cs.dropWhile fun c => c = ' ' || c = '\t' || c = '\n' || c = '\r'

/-- The words that stand for values. -/
def constants : List (List Char × Value) :=
  [("null".toList, .null), ("true".toList, .bool true), ("false".toList, .bool false),
    ("NaN".toList, .float "NaN".toList), ("Infinity".toList, .float "Infinity".toList),
    ("-Infinity".toList, .float "-Infinity".toList)]

/-- Items with commas between them, at most `n`, up to a closing bracket. -/
def separated {α : Type} (close : Char) (item : Decoder α) : ℕ → Decoder (List α)
  | 0, _ => .error .decode
  | n + 1, cs =>
    (item cs).bind fun (a, cs) =>
    match skip cs with
    | [] => .error .decode
    | c :: cs =>
      if c = ',' then (separated close item n (skip cs)).map fun (as, rest) => (a :: as, rest)
      else if c = close then .ok ([a], cs)
      else .error .decode

/-- A field: its name, a colon and its value. -/
def member (value : Decoder Value) : Decoder (Str × Value)
  | '"' :: cs =>
    (string cs).bind fun (name, cs) =>
    match skip cs with
    | ':' :: cs => (value (skip cs)).map fun (v, rest) => ((name, v), rest)
    | _ => .error .decode
  | _ => .error .decode

section

-- A bound on the number of items, by the text they are read from.
variable (bound : List Char → ℕ)

/-- A list, after its opening bracket. -/
def array (value : Decoder Value) : Decoder Value := fun cs =>
  match skip cs with
  | ']' :: cs => .ok (.arr [], cs)
  | cs => (separated ']' value (bound cs) cs).map fun (vs, rest) => (.arr vs, rest)

/-- An object, after its opening brace. -/
def object (value : Decoder Value) : Decoder Value := fun cs =>
  match skip cs with
  | '\x7d' :: cs => .ok (.obj [], cs)
  | cs => (separated '\x7d' (member value) (bound cs) cs).map fun (fs, rest) => (.obj fs, rest)

/-- A word that stands for a value, or a number. -/
def scalar : Decoder Value := fun cs =>
  match constants.find? fun constant => constant.1.isPrefixOf cs with
  | some (word, v) => .ok (v, cs.drop word.length)
  | none => number cs

/-- `scan_once`: a value, with the decoder of the values in it, unless these are nested
    too deeply. -/
def scanOnce (nested : Option (Decoder Value)) : Decoder Value
  | '"' :: cs => (string cs).map fun (s, rest) => (.str s, rest)
  | '[' :: cs => nested.elim (.error .recursion) fun value => array bound value cs
  | '\x7b' :: cs => nested.elim (.error .recursion) fun value => object bound value cs
  | cs => scalar cs

/-- A value, nested up to a depth. -/
def value : ℕ → Decoder Value
  | 0 => scanOnce bound none
  | depth + 1 => scanOnce bound (some (value depth))

/-- A text with one value, with a bound on the items. -/
def loadsWith (depth : ℕ) (text : String) : Except Error Value :=
  (value bound depth (skip text.toList)).bind fun (v, cs) => if skip cs = [] then .ok v
    else .error .decode

end

/-- `json.loads`, with the limit on recursion. -/
def loads (depth : ℕ) (text : String) : Except Error Value :=
  loadsWith (fun cs => cs.length + 1) depth text

variable {bound : List Char → ℕ} {cs rest : List Char} {ns : List ℕ} {v : Value}
  {decoder : Decoder Value} {nested : Option (Decoder Value)} {n k depth : ℕ} {text : String}

/-! ## What is read -/

/-- The decoder reads something. -/
def Progress {α : Type} (decoder : Decoder α) : Prop :=
  ∀ {cs a rest}, decoder cs = .ok (a, rest) → rest.length < cs.length

theorem length_skip_le (cs : List Char) : (skip cs).length ≤ cs.length :=
  List.length_dropWhile_le ..

theorem length_units (h : units cs = some (ns, rest)) : rest.length < cs.length := by
  fun_induction units cs generalizing ns with
  | case1 => exact absurd h (by simp)
  | case2 cs =>
    obtain ⟨-, rfl⟩ := Prod.mk.inj (Option.some.inj h)
    exact Nat.lt_succ_self _
  | case3 a b c d cs ih =>
    obtain ⟨n, -, h⟩ := Option.bind_eq_some_iff.1 h
    obtain ⟨⟨ns', rest'⟩, hunits, heq⟩ := Option.map_eq_some_iff.1 h
    obtain ⟨-, rfl⟩ := Prod.mk.inj heq
    exact Nat.lt_add_right 6 (ih hunits)
  | case4 c cs _ ih =>
    obtain ⟨n, -, h⟩ := Option.bind_eq_some_iff.1 h
    obtain ⟨⟨ns', rest'⟩, hunits, heq⟩ := Option.map_eq_some_iff.1 h
    obtain ⟨-, rfl⟩ := Prod.mk.inj heq
    exact Nat.lt_add_right 2 (ih hunits)
  | case5 c cs => exact absurd h (by simp)
  | case6 c cs _ _ _ _ ih =>
    obtain ⟨⟨ns', rest'⟩, hunits, heq⟩ := Option.map_eq_some_iff.1 h
    obtain ⟨-, rfl⟩ := Prod.mk.inj heq
    exact Nat.lt_add_right 1 (ih hunits)

theorem progress_string : Progress string := by
  intro cs s rest h
  rw [string] at h
  split at h
  · exact absurd h (by simp)
  · rename_i hunits
    obtain ⟨-, rfl⟩ := Prod.mk.inj (Except.ok.inj h)
    exact length_units hunits

theorem append_signPart (cs : List Char) : (signPart cs).1 ++ (signPart cs).2 = cs := by
  unfold signPart
  split <;> rfl

theorem append_integerPart (cs : List Char) : (integerPart cs).1 ++ (integerPart cs).2 = cs := by
  unfold integerPart
  split
  · rfl
  · exact List.takeWhile_append_dropWhile ..

theorem append_fractionPart (cs : List Char) : (fractionPart cs).1 ++ (fractionPart cs).2 = cs := by
  unfold fractionPart
  split
  · split
    · exact congrArg _ (List.takeWhile_append_dropWhile ..)
    · rfl
  · rfl

theorem append_exponentPart (cs : List Char) : (exponentPart cs).1 ++ (exponentPart cs).2 = cs := by
  unfold exponentPart
  split
  · rfl
  · rename_i e cs
    have hsign : ∀ p, (cs.head?.filter p).toList ++
        cs.drop (cs.head?.filter p).toList.length = cs := by
      intro p
      rcases cs with _ | ⟨c, cs⟩
      · rfl
      · by_cases hc : p c = true <;> simp [hc, Option.filter]
    dsimp only
    split
    · dsimp only
      rw [List.cons_append, List.cons_append, List.append_assoc,
        List.takeWhile_append_dropWhile, hsign]
    · rfl

theorem progress_number : Progress number := by
  intro cs v rest h
  obtain ⟨hne, hrest⟩ : (integerPart (signPart cs).2).1 ≠ [] ∧
      rest = (exponentPart (fractionPart (integerPart (signPart cs).2).2).2).2 := by
    rw [number] at h
    dsimp only at h
    split at h
    · exact absurd h (by simp)
    · rename_i hne
      split at h
      · exact ⟨hne, (Prod.mk.inj (Except.ok.inj h)).2.symm⟩
      split at h
      · exact absurd h (by simp)
      · exact ⟨hne, (Prod.mk.inj (Except.ok.inj h)).2.symm⟩
  have hsign := congrArg List.length (append_signPart cs)
  have hinteger := congrArg List.length (append_integerPart (signPart cs).2)
  have hfraction := congrArg List.length (append_fractionPart (integerPart (signPart cs).2).2)
  have hexponent := congrArg List.length
    (append_exponentPart (fractionPart (integerPart (signPart cs).2).2).2)
  have hpos := List.length_pos_iff.2 hne
  rw [List.length_append] at hsign hinteger hfraction hexponent
  rw [hrest]
  omega

theorem progress_scalar : Progress scalar := by
  intro cs v rest h
  rw [scalar] at h
  split at h
  · rename_i word v' hfind
    have hpos : ∀ constant ∈ constants, 0 < constant.1.length := by
      simp only [constants, List.forall_mem_cons]
      decide
    have hprefix : word.isPrefixOf cs = true := by simpa using List.find?_some hfind
    have hle := (List.isPrefixOf_iff_prefix.1 hprefix).length_le
    have hlt := hpos _ (List.mem_of_find?_eq_some hfind)
    obtain ⟨-, rfl⟩ := Prod.mk.inj (Except.ok.inj h)
    rw [List.length_drop]
    dsimp only at hlt
    omega
  · exact progress_number h

theorem progress_separated {α : Type} {close : Char} {item : Decoder α} (hitem : Progress item) :
    Progress (separated close item n) := by
  intro cs as rest h
  induction n generalizing cs as with
  | zero => exact absurd h (by simp [separated])
  | succ n ih =>
    obtain ⟨⟨a, left⟩, ha, h⟩ := Raising.bind_eq_ok.1 h
    have hlt := hitem ha
    have hskip := length_skip_le left
    dsimp only at h
    split at h
    · exact absurd h (by simp)
    · rename_i c left' hleft
      rw [hleft, List.length_cons] at hskip
      split at h
      · obtain ⟨⟨as', rest'⟩, hmore, heq⟩ := Raising.map_eq_ok.1 h
        obtain ⟨-, rfl⟩ := Prod.mk.inj heq
        have hrest := ih hmore
        have hskip' := length_skip_le left'
        omega
      split at h
      · obtain ⟨-, rfl⟩ := Prod.mk.inj (Except.ok.inj h)
        omega
      · exact absurd h (by simp)

theorem progress_member (hvalue : Progress decoder) : Progress (member decoder) := by
  intro cs f rest h
  unfold member at h
  split at h
  · obtain ⟨⟨name, left⟩, hname, h⟩ := Raising.bind_eq_ok.1 h
    have hlt := progress_string hname
    have hskip := length_skip_le left
    dsimp only at h
    split at h
    · rename_i left' hleft
      obtain ⟨⟨v, rest'⟩, hv, heq⟩ := Raising.map_eq_ok.1 h
      obtain ⟨-, rfl⟩ := Prod.mk.inj heq
      have hrest := hvalue hv
      have hskip' := length_skip_le left'
      rw [hleft, List.length_cons] at hskip
      rw [List.length_cons]
      dsimp only
      omega
    · exact absurd h (by simp)
  · exact absurd h (by simp)

theorem progress_array (hvalue : Progress decoder) : Progress (array bound decoder) := by
  intro cs v rest h
  have hskip := length_skip_le cs
  rw [array] at h
  split at h
  · rename_i left hleft
    obtain ⟨-, rfl⟩ := Prod.mk.inj (Except.ok.inj h)
    rw [hleft, List.length_cons] at hskip
    omega
  · obtain ⟨⟨vs, rest'⟩, hitems, heq⟩ := Raising.map_eq_ok.1 h
    obtain ⟨-, rfl⟩ := Prod.mk.inj heq
    exact Nat.lt_of_lt_of_le (progress_separated hvalue hitems) hskip

theorem progress_object (hvalue : Progress decoder) : Progress (object bound decoder) := by
  intro cs v rest h
  have hskip := length_skip_le cs
  rw [object] at h
  split at h
  · rename_i left hleft
    obtain ⟨-, rfl⟩ := Prod.mk.inj (Except.ok.inj h)
    rw [hleft, List.length_cons] at hskip
    omega
  · obtain ⟨⟨fs, rest'⟩, hitems, heq⟩ := Raising.map_eq_ok.1 h
    obtain ⟨-, rfl⟩ := Prod.mk.inj heq
    exact Nat.lt_of_lt_of_le (progress_separated (progress_member hvalue) hitems) hskip

theorem progress_scanOnce (hnested : ∀ d, nested = some d → Progress d) :
    Progress (scanOnce bound nested) := by
  intro cs v rest h
  unfold scanOnce at h
  split at h
  · obtain ⟨⟨s, rest'⟩, hstring, heq⟩ := Raising.map_eq_ok.1 h
    obtain ⟨-, rfl⟩ := Prod.mk.inj heq
    exact (progress_string hstring).trans (Nat.lt_succ_self _)
  · rcases nested with _ | d
    · exact absurd h (by simp)
    · exact (progress_array (hnested d rfl) h).trans (Nat.lt_succ_self _)
  · rcases nested with _ | d
    · exact absurd h (by simp)
    · exact (progress_object (hnested d rfl) h).trans (Nat.lt_succ_self _)
  · exact progress_scalar h

/-- A value reads something. -/
theorem progress_value (depth : ℕ) : Progress (value bound depth) := by
  induction depth with
  | zero => exact progress_scanOnce (by simp)
  | succ depth ih =>
    refine progress_scanOnce fun d hd => ?_
    exact Option.some.inj hd ▸ ih

/-! ## The bound -/

/-- The bound on the number of items is of no account, as long as it is more than the
    length of the text. -/
theorem separated_congr {α : Type} {close : Char} {item : Decoder α} (hitem : Progress item)
    (hn : cs.length < n) (hk : cs.length < k) :
    separated close item n cs = separated close item k cs := by
  induction n generalizing cs k with
  | zero => exact absurd hn (Nat.not_lt_zero _)
  | succ n ih =>
    obtain ⟨k, rfl⟩ := Nat.exists_eq_succ_of_ne_zero (Nat.ne_zero_of_lt hk)
    rw [separated, separated]
    rcases ha : item cs with e | ⟨a, left⟩
    · rfl
    · have hlt := hitem ha
      have hskip := length_skip_le left
      simp only [Except.bind]
      rcases hleft : skip left with _ | ⟨c, left'⟩
      · rfl
      · rw [hleft, List.length_cons] at hskip
        have hskip' := length_skip_le left'
        dsimp only
        rw [ih (k := k) (by omega) (by omega)]

theorem array_congr (hvalue : Progress decoder) (h : ∀ cs, cs.length < bound cs) :
    array bound decoder = array (fun cs => cs.length + 1) decoder := by
  funext cs
  rw [array, array]
  split
  · rfl
  · rw [separated_congr hvalue (h _) (Nat.lt_succ_self _)]

theorem object_congr (hvalue : Progress decoder) (h : ∀ cs, cs.length < bound cs) :
    object bound decoder = object (fun cs => cs.length + 1) decoder := by
  funext cs
  rw [object, object]
  split
  · rfl
  · rw [separated_congr (progress_member hvalue) (h _) (Nat.lt_succ_self _)]

theorem scanOnce_congr (hnested : ∀ d, nested = some d → Progress d)
    (h : ∀ cs, cs.length < bound cs) :
    scanOnce bound nested = scanOnce (fun cs => cs.length + 1) nested := by
  funext cs
  unfold scanOnce
  cases nested with
  | none => rfl
  | some d =>
    simp only [Option.elim_some, array_congr (hnested d rfl) h, object_congr (hnested d rfl) h]

theorem value_congr (h : ∀ cs, cs.length < bound cs) :
    value bound depth = value (fun cs => cs.length + 1) depth := by
  induction depth with
  | zero => exact scanOnce_congr (by simp) h
  | succ depth ih =>
    rw [value, value, ih]
    refine scanOnce_congr (fun d hd => ?_) h
    exact Option.some.inj hd ▸ progress_value depth

/-- No text has more items than it is long, so that a larger bound makes no difference. -/
theorem loadsWith_eq (h : ∀ cs, cs.length < bound cs) :
    loadsWith bound depth text = loads depth text := by
  rw [loads, loadsWith, loadsWith, value_congr h]

end Json
