import DecimalMachine.AddressNames
/-
  Names of addresses as partial functions. A table is known by the names it has for addresses
  (`ext_get?`): its entries are in the order of the addresses, so there is only one table for each
  such function. Naming an address changes the name of that address alone (`get?_put`), and a table
  made of entries in the order of their addresses has just these (`entries_ofList`).
-/
namespace DecimalMachine

theorem lookup_cons_eq (e : Int × String) (es : List (Int × String)) (b : Int) :
    (e :: es).lookup b = if b = e.1 then some e.2 else es.lookup b := by
  obtain ⟨address, name⟩ := e
  dsimp only
  by_cases h : b = address
  · simp [h]
  · have hb : (b == address) = false := beq_false_of_ne h
    simp [List.lookup_cons, hb, h]

theorem lookup_eq_none_of_lt {es : List (Int × String)} {b : Int} (h : ∀ e ∈ es, b < e.1) :
    es.lookup b = none := by
  induction es with
  | nil => rfl
  | cons e es ih =>
    have hb := h e List.mem_cons_self
    rw [lookup_cons_eq, if_neg (by omega)]
    exact ih fun d hd => h d (List.mem_cons_of_mem e hd)

theorem lookup_putEntry (address : Int) (name : String) (es : List (Int × String)) (b : Int) :
    (putEntry address name es).lookup b = if b = address then some name else es.lookup b := by
  induction es with
  | nil => rw [putEntry, lookup_cons_eq]
  | cons e es ih =>
    rw [putEntry]
    split
    · rw [lookup_cons_eq]
    · split
      · rw [lookup_cons_eq, lookup_cons_eq, ih]
        by_cases hb : b = address
        · rw [if_neg (by omega), if_pos hb, if_pos hb]
        · rw [if_neg hb, if_neg hb]
      · have he : e.1 = address := by omega
        rw [lookup_cons_eq, lookup_cons_eq, he]
        by_cases hb : b = address <;> simp [hb]

/-- The first entry is at the first address that has a name. -/
theorem le_of_lookup {d : Int × String} {ds : List (Int × String)} {b : Int} {name : String}
    (h : (d :: ds).Pairwise (·.1 < ·.1)) (hb : (d :: ds).lookup b = some name) : d.1 ≤ b := by
  refine Int.not_lt.1 fun hlt => ?_
  have hnone : (d :: ds).lookup b = none := by
    refine lookup_eq_none_of_lt fun e he => ?_
    rcases List.mem_cons.1 he with rfl | he
    · exact hlt
    · exact Int.lt_trans hlt ((List.pairwise_cons.1 h).1 e he)
  rw [hnone] at hb
  cases hb

theorem eq_of_lookup {ds es : List (Int × String)} (hd : ds.Pairwise (·.1 < ·.1))
    (he : es.Pairwise (·.1 < ·.1)) (h : ∀ b, ds.lookup b = es.lookup b) : ds = es := by
  induction ds generalizing es with
  | nil =>
    cases es with
    | nil => rfl
    | cons e es => simpa [lookup_cons_eq] using h e.1
  | cons d ds ih =>
    cases es with
    | nil => simpa [lookup_cons_eq] using h d.1
    | cons e es =>
      have hfirst : (d :: ds).lookup d.1 = some d.2 := by rw [lookup_cons_eq, if_pos rfl]
      have hfirst' : (e :: es).lookup e.1 = some e.2 := by rw [lookup_cons_eq, if_pos rfl]
      have hle : e.1 ≤ d.1 := le_of_lookup he ((h d.1).symm.trans hfirst)
      have hge : d.1 ≤ e.1 := le_of_lookup hd ((h e.1).trans hfirst')
      have haddress : d.1 = e.1 := by omega
      have hname : d.2 = e.2 := by
        rw [h, haddress, hfirst'] at hfirst
        exact (Option.some.inj hfirst).symm
      obtain ⟨hdlt, hd⟩ := List.pairwise_cons.1 hd
      obtain ⟨helt, he⟩ := List.pairwise_cons.1 he
      have hrest : ds = es := by
        refine ih hd he fun b => ?_
        have hb := h b
        rw [lookup_cons_eq, lookup_cons_eq, haddress] at hb
        by_cases hbe : b = e.1
        · rw [lookup_eq_none_of_lt fun x hx => hbe ▸ haddress ▸ hdlt x hx,
            lookup_eq_none_of_lt fun x hx => hbe ▸ helt x hx]
        · simpa [hbe] using hb
      rw [hrest, show d = e from Prod.ext haddress hname]

namespace AddressNames

theorem ext_entries {t u : AddressNames} (h : t.entries = u.entries) : t = u := by
  obtain ⟨es, hes⟩ := t
  subst h
  rfl

/-- A table is known by the names it has. -/
theorem ext_get? {t u : AddressNames} (h : ∀ b, t.get? b = u.get? b) : t = u :=
  ext_entries (eq_of_lookup t.ascending u.ascending h)

theorem get?_put (t : AddressNames) (address : Int) (name : String) (b : Int) :
    (t.put address name).get? b = if b = address then some name else t.get? b :=
  lookup_putEntry address name t.entries b

theorem get?_putNew (t : AddressNames) (address : Int) (name : String) (b : Int) :
    (t.putNew address name).get? b =
      (t.get? b).or (if b = address then some name else none) := by
  unfold putNew
  by_cases hb : b = address
  · subst hb
    rw [if_pos rfl]
    split
    · rename_i hs
      obtain ⟨x, hx⟩ := Option.isSome_iff_exists.1 hs
      rw [hx, Option.some_or]
    · rename_i hs
      rw [get?_put, if_pos rfl, Option.not_isSome_iff_eq_none.1 hs, Option.none_or]
  · rw [if_neg hb, Option.or_none]
    split
    · rfl
    · rw [get?_put, if_neg hb]

/-- Joined tables name what either names, the first one first. -/
theorem get?_orElse (t u : AddressNames) (b : Int) :
    (t.orElse u).get? b = (t.get? b).or (u.get? b) := by
  have hfold : ∀ (es : List (Int × String)) (t : AddressNames),
      (es.foldl (fun t e => t.putNew e.1 e.2) t).get? b = (t.get? b).or (es.lookup b) := by
    intro es
    induction es with
    | nil => exact fun t => (Option.or_none ..).symm
    | cons e es ih =>
      intro t
      rw [List.foldl_cons, ih, get?_putNew, Option.or_assoc, lookup_cons_eq]
      split <;> rfl
  exact hfold u.entries t

theorem get?_eq_some_iff {t : AddressNames} {b : Int} {name : String} :
    t.get? b = some name ↔ (b, name) ∈ t.entries := by
  obtain ⟨es, hes⟩ := t
  unfold get?
  induction es with
  | nil => simp
  | cons e es ih =>
    obtain ⟨hlt, hes⟩ := List.pairwise_cons.1 hes
    rw [lookup_cons_eq, List.mem_cons]
    by_cases hb : b = e.1
    · have hnot : (b, name) ∉ es := fun hm => absurd (hlt _ hm) (by simp [hb])
      simp only [if_pos hb, Option.some.injEq, hnot, or_false]
      exact ⟨fun hn => Prod.ext hb hn.symm, fun he => (congrArg Prod.snd he).symm⟩
    · have hne : (b, name) ≠ e := fun he => hb (congrArg Prod.fst he)
      simp only [if_neg hb, hne, false_or]
      exact ih hes

theorem putEntry_of_lt {address : Int} {name : String} {es : List (Int × String)}
    (h : ∀ e ∈ es, e.1 < address) : putEntry address name es = es ++ [(address, name)] := by
  induction es with
  | nil => rfl
  | cons e es ih =>
    have he := h e List.mem_cons_self
    rw [putEntry, if_neg (by omega), if_pos he, ih fun d hd => h d (List.mem_cons_of_mem e hd)]
    rfl

theorem entries_foldl_put {es : List (Int × String)} {t : AddressNames}
    (h : (t.entries ++ es).Pairwise (·.1 < ·.1)) :
    (es.foldl (fun t e => t.put e.1 e.2) t).entries = t.entries ++ es := by
  induction es generalizing t with
  | nil => exact (List.append_nil _).symm
  | cons e es ih =>
    have hlast : (t.put e.1 e.2).entries = t.entries ++ [e] :=
      putEntry_of_lt fun d hd => (List.pairwise_append.1 h).2.2 d hd e List.mem_cons_self
    have hassoc : t.entries ++ e :: es = t.entries ++ [e] ++ es := by simp
    rw [hassoc] at h ⊢
    rw [← hlast] at h ⊢
    exact ih h

/-- A table made of entries in the order of their addresses has these entries. -/
theorem entries_ofList {es : List (Int × String)} (h : es.Pairwise (·.1 < ·.1)) :
    (ofList es).entries = es := entries_foldl_put (t := empty) h

end AddressNames

end DecimalMachine
