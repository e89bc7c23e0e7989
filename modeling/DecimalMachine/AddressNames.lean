/-
  Names of addresses: a table from addresses to names, in the order of the addresses.
-/
namespace DecimalMachine

/-- The entries of a table once `address` is named `name`. -/
def putEntry (address : Int) (name : String) : List (Int × String) → List (Int × String)
  | [] => [(address, name)]
  | e :: es =>
    if address < e.1 then (address, name) :: e :: es
    else if e.1 < address then e :: putEntry address name es
    else (address, name) :: es

theorem mem_putEntry {address : Int} {name : String} {es : List (Int × String)}
    {e : Int × String} (h : e ∈ putEntry address name es) : e = (address, name) ∨ e ∈ es := by
  induction es with
  | nil => simpa [putEntry] using h
  | cons d es ih =>
    rw [putEntry] at h
    split at h
    · simpa using h
    · split at h
      · rcases List.mem_cons.1 h with rfl | h
        · simp
        · rcases ih h with h | h <;> simp [h]
      · rcases List.mem_cons.1 h with h | h <;> simp [h]

theorem pairwise_putEntry {address : Int} {name : String} {es : List (Int × String)}
    (h : es.Pairwise (·.1 < ·.1)) : (putEntry address name es).Pairwise (·.1 < ·.1) := by
  induction es with
  | nil => simp [putEntry]
  | cons e es ih =>
    obtain ⟨he, hes⟩ := List.pairwise_cons.1 h
    rw [putEntry]
    split
    · refine List.pairwise_cons.2 ⟨fun d hd => ?_, h⟩
      rcases List.mem_cons.1 hd with rfl | hd
      · assumption
      · have := he d hd; simp only; omega
    · split
      · refine List.pairwise_cons.2 ⟨fun d hd => ?_, ih hes⟩
        rcases mem_putEntry hd with rfl | hd
        · assumption
        · exact he d hd
      · refine List.pairwise_cons.2 ⟨fun d hd => ?_, hes⟩
        have := he d hd; simp only; omega

/-- At most one name for every address. -/
structure AddressNames where
  entries : List (Int × String)
  ascending : entries.Pairwise (·.1 < ·.1)
deriving DecidableEq

namespace AddressNames

def empty : AddressNames := ⟨[], .nil⟩

/-- Names an address, again if it has a name. -/
def put (t : AddressNames) (address : Int) (name : String) : AddressNames :=
  ⟨putEntry address name t.entries, pairwise_putEntry t.ascending⟩

def get? (t : AddressNames) (address : Int) : Option String := t.entries.lookup address

/-- Names an address that has no name. -/
def putNew (t : AddressNames) (address : Int) (name : String) : AddressNames :=
  if (t.get? address).isSome then t else t.put address name

def ofList (es : List (Int × String)) : AddressNames :=
  es.foldl (fun t e => t.put e.1 e.2) empty

/-- The first table, and the second where the first has no name. -/
def orElse (t u : AddressNames) : AddressNames :=
  u.entries.foldl (fun t e => t.putNew e.1 e.2) t

end AddressNames

end DecimalMachine
