import Std.Data.HashMap
/-
  Similar names: how much two texts have in common after Ratcliff and Obershelp, and the names
  of a list that come close to a word.

  The longest run that both texts share is counted, then the runs that the parts to its left and
  the parts to its right share, and so on. Characters that fill more than a hundredth of a word
  of 200 or more characters are common: no run is found by them, though one may grow over them.
-/
namespace DecimalMachine.Text

/-! ## Places -/

/-- For every character, where it stands in a text, in ascending order. -/
abbrev Places := @Std.HashMap Char (List Nat) instBEqOfDecidableEq instHashableChar

def placesOf (b : List Char) : Places :=
  b.zipIdx.foldr (fun (c, j) t => t.insert c (j :: t.getD c [])) ∅

/-- The common characters of a word, with their places. -/
def commonIn (word : List Char) : Places :=
  if word.length < 200 then ∅
  else (placesOf word).filter fun _ js => word.length / 100 + 1 < js.length

/-! ## Shared runs -/

/-- A run that two texts share: where it begins in the one and in the other, and its length. -/
structure SharedRun where
  first : Nat
  second : Nat
  size : Nat

/-- The runs that end at the places `js`, made from those that end one character before: the place
    where each ends and its length, by ascending place. -/
def extendRuns : List Nat → List (Nat × Nat) → List (Nat × Nat)
  | [], _ => []
  | j :: js, [] => (j, 1) :: extendRuns js []
  | j :: js, (i, k) :: runs =>
    if i + 1 < j then extendRuns (j :: js) runs
    else if i + 1 = j then (j, k + 1) :: extendRuns js runs
    else (j, 1) :: extendRuns js ((i, k) :: runs)
termination_by js runs => js.length + runs.length

/-- The longest of `best` and the runs that end at place `i` of the one text, the first of
    several. -/
def longestEnding (i : Nat) (best : SharedRun) (runs : List (Nat × Nat)) : SharedRun :=
  runs.foldl (fun best (j, k) => if best.size < k then ⟨i + 1 - k, j + 1 - k, k⟩ else best) best

/-- The longest of `best` and the runs found from place `i` on; `runs` end before it. -/
def longestFrom (places : Places) : Nat → List (Nat × Nat) → SharedRun → List Char → SharedRun
  | _, _, best, [] => best
  | i, runs, best, c :: a =>
    let runs := extendRuns (places.getD c []) runs
    longestFrom places (i + 1) runs (longestEnding i best runs) a

/-- How many characters two texts share at the front. -/
def sharedFront : List Char → List Char → Nat
  | c :: a, d :: b => if c = d then sharedFront a b + 1 else 0
  | _, _ => 0

/-- The run found by characters that are not common, grown at both ends. -/
def longestShared (common : Places) (a b : List Char) : SharedRun :=
  let places := (placesOf b).filter fun c _ => !common.contains c
  let r := longestFrom places 0 [] ⟨0, 0, 0⟩ a
  let back := sharedFront (a.take r.first).reverse (b.take r.second).reverse
  let ahead := sharedFront (a.drop (r.first + r.size)) (b.drop (r.second + r.size))
  ⟨r.first - back, r.second - back, back + r.size + ahead⟩

/-- How many characters the shared runs have together; `fuel` bounds the depth and is enough
    from the length of `a` on. -/
def sharedCount (common : Places) : Nat → List Char → List Char → Nat
  | 0, _, _ => 0
  | fuel + 1, a, b =>
    if a.isEmpty || b.isEmpty then 0
    else
      let r := longestShared common a b
      if r.size = 0 then 0
      else
        r.size + sharedCount common fuel (a.take r.first) (b.take r.second) +
          sharedCount common fuel (a.drop (r.first + r.size)) (b.drop (r.second + r.size))

/-! ## Likeness -/

/-- A name and how much it shares with a word: `shared` characters twice, of `total`. -/
structure Likeness where
  name : String
  shared : Nat
  total : Nat

/-- A word to compare names with: its common characters, and all of them in ascending order. -/
structure Pattern where
  word : List Char
  common : Places
  ascending : List Char

def sorted (s : List Char) : List Char := s.mergeSort fun c d => c ≤ d

def Pattern.ofWord (word : List Char) : Pattern := ⟨word, commonIn word, sorted word⟩

def Pattern.likeness (p : Pattern) (name : String) : Likeness :=
  let cs := name.toList
  ⟨name, sharedCount p.common (cs.length + 1) cs p.word, cs.length + p.word.length⟩

/-- At least six tenths are shared; two empty texts are alike. -/
def Likeness.close (l : Likeness) : Bool := 3 * l.total ≤ 10 * l.shared

/-- How many characters two texts in ascending order have in common. -/
def overlap : List Char → List Char → Nat
  | c :: a, d :: b =>
    if c = d then overlap a b + 1 else if c < d then overlap a (d :: b) else overlap (c :: a) b
  | _, _ => 0
termination_by a b => a.length + b.length

/-- Texts share no more than the shorter of them, and no more than the characters both have
    without regard to order, so a name may be kept apart before its runs are looked for. -/
def Pattern.admits (p : Pattern) (name : String) : Bool :=
  let cs := name.toList
  let most (shared : Nat) : Bool := (Likeness.mk name shared (cs.length + p.word.length)).close
  most (min cs.length p.word.length) && most (overlap (sorted cs) p.ascending)

/-- By share, then by name, the greater first. -/
def Likeness.before (l r : Likeness) : Bool :=
  let a := (if l.total = 0 then 1 else 2 * l.shared) * (if r.total = 0 then 1 else r.total)
  let b := (if r.total = 0 then 1 else 2 * r.shared) * (if l.total = 0 then 1 else l.total)
  b < a || (a = b && r.name ≤ l.name)

/-- The `n` names closest to a word, the closest first, none that is not close. -/
def closeNames (n : Nat) (word : String) (names : List String) : List String :=
  let p := Pattern.ofWord word.toList
  let close := ((names.filter p.admits).map p.likeness).filter Likeness.close
  ((close.mergeSort Likeness.before).take n).map Likeness.name

theorem length_closeNames_le (n : Nat) (word : String) (names : List String) :
    (closeNames n word names).length ≤ n := by
  rw [closeNames, List.length_map, List.length_take]
  exact Nat.min_le_left ..

end DecimalMachine.Text
