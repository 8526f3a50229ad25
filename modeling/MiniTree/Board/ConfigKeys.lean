import MiniTree.Board.ConfigPersist

/-!
# Reading one's own writes

A setter cuts the key to 31 bytes when it makes an entry, and the lookup compares it in full.

**Results.** `readsOwnWrites_iff`: what was set under a key is read under it, whatever is set under
other keys afterwards, no other key reads differently and setting the key again takes no entry,
exactly when the key has at most 31 bytes (or the table is full, and the setter returns an error).
`long_key_lost` is a key of 32 bytes.
-/

namespace MiniTree.Config

open MiniTree.Core Option List

/-- The getter of the call's type returns the value of the call, whatever the default. -/
def Returns (libc : Libc) (src : Source) (entries : List Entry) : SetCall → Prop
  | .setBool key b => ∀ d, configStoreGetBool src entries key d = b
  | .setInt key i => ∀ d, configStoreGetInt libc src entries key d = i
  | .setFloat key f => ∀ d, configStoreGetFloat libc src entries key d = f
  | .setString key s => ∀ d, configStoreGetString src entries key d = s

/-- Calls one after the other; one that fails changes nothing. -/
def setEach (entries : List Entry) (calls : List SetCall) : List Entry :=
  calls.foldl (fun es c => (c.apply es).getD es) entries

/-- A call on `key` that succeeds is read back until the next one on `key`, changes no other key, and
has no further call on `key` take an entry. A string has at most 63 bytes. -/
def ReadsOwnWrites (libc : Libc) (src : Source) (entries : List Entry) (key : Bytes) : Prop :=
  ∀ c fs, SetCall.key c = key → c.value.Short → c.apply entries = some fs →
    (∀ calls, (∀ d ∈ calls, SetCall.key d ≠ key) → Returns libc src (setEach fs calls) c) ∧
    (∀ k, k ≠ key → ReadsSame libc src fs entries k) ∧
    ∀ d gs, SetCall.key d = key → d.apply fs = some gs → gs.length = fs.length

variable {es : List Entry}
variable {src : Source} {libc : Libc} {c : SetCall} {v : Value}

theorem returns_of_value
    (hc : c.value.Short) (h : entryValue es c.key = some c.value.stored) : Returns libc src es c := by
  cases c with
  | setString key s =>
    have hs : (SetCall.setString key s).value.stored = .string s :=
      congrArg Value.string (take_of_length_le hc)
    intro d
    rw [hs] at h
    dsimp only [SetCall.key] at h
    simp only [configStoreGetString, h]
  | _ =>
    dsimp only [SetCall.key, SetCall.value, Value.stored] at h
    simp only [Returns, configStoreGetBool, configStoreGetInt, configStoreGetFloat, h, implies_true]

variable {k : Bytes}

theorem apply_keeps {es fs : List Entry} (h : c.apply es = some fs)
    (hne : c.key ≠ k) (hv : entryValue es k = some v) : entryValue fs k = some v := by
  rw [SetCall.apply_eq] at h
  unfold configStoreSet at h
  split at h
  · rename_i hsome
    rw [← some_inj.mp h]
    exact (findEntry_replaceFirst es k hsome).trans ((if_neg hne).trans hv)
  split at h
  · cases h
  rw [← some_inj.mp h]
  unfold entryValue at hv ⊢
  rw [findEntry_append]
  obtain ⟨e, he, hev⟩ := map_eq_some_iff.mp hv
  rw [he, some_or, map_some, hev]

theorem setEach_keeps (calls : List SetCall) (es : List Entry)
    (hne : ∀ d ∈ calls, SetCall.key d ≠ k) (hv : entryValue es k = some v) :
    entryValue (setEach es calls) k = some v := by
  induction calls generalizing es with
  | nil => exact hv
  | cons d calls ih =>
    refine ih _ (fun x hx => hne x (mem_cons_of_mem _ hx)) ?_
    dsimp only
    cases hd : d.apply es with
    | none => exact hv
    | some fs => exact apply_keeps hd (hne d mem_cons_self) hv

theorem entryValue_long (hk : 31 < k.length) : entryValue es k = none := by
  have hnone : findEntry es k = none := by
    refine find?_eq_none.mpr fun e _ he => ?_
    have hlen := e.key_short
    rw [of_decide_eq_true he] at hlen
    omega
  unfold entryValue
  rw [hnone]
  rfl

/-- What is set under a long key is not read, but what the source has. -/
theorem not_readsOwnWrites {key : Bytes}
    (hk : 31 < key.length) (hroom : es.length < maxEntries) : ¬ ReadsOwnWrites libc src es key := by
  intro h
  have hset : ∀ i, SetCall.apply es (.setInt key i) = some (es ++ [mkEntry key (.int i)]) := by
    intro i
    have hnone : findEntry es key = none := map_eq_none_iff.mp (entryValue_long hk)
    rw [SetCall.apply_eq]
    unfold configStoreSet
    rw [show (SetCall.setInt key i).key = key from rfl, hnone, isSome_none,
      if_neg Bool.false_ne_true, if_neg (not_le.mpr hroom)]
    rfl
  have hget : ∀ fs, configStoreGetInt libc src fs key 0 =
      ((findJsonValue src key).map libc.atoi).getD 0 := by
    intro fs
    unfold configStoreGetInt
    rw [entryValue_long hk]
  have hread : ∀ i, ((findJsonValue src key).map libc.atoi).getD 0 = i := by
    intro i
    have hi := (h (.setInt key i) _ rfl trivial (hset i)).1 [] (fun d hd => absurd hd not_mem_nil)
    exact (hget _).symm.trans (hi 0)
  exact absurd ((hread 0).symm.trans (hread 1)) (by decide)

theorem readsOwnWrites_iff (libc : Libc) (src : Source) (entries : List Entry) (key : Bytes) :
    ReadsOwnWrites libc src entries key ↔ key.length ≤ 31 ∨ maxEntries ≤ entries.length := by
  constructor
  · intro h
    by_contra hbad
    push Not at hbad
    exact not_readsOwnWrites hbad.1 hbad.2 h
  · intro h c fs hkey hshort happ
    subst hkey
    rcases lt_or_ge 31 c.key.length with hlong | hk
    · -- the table is full, and the setter fails
      have hfull : maxEntries ≤ entries.length := h.resolve_left (by omega)
      have hnone : findEntry entries c.key = none := map_eq_none_iff.mp (entryValue_long hlong)
      rw [SetCall.apply_eq, configStoreSet, hnone, isSome_none, if_neg Bool.false_ne_true,
        if_pos hfull] at happ
      cases happ
    have hval := (apply_spec happ (by omega)).2.2
    have hset : entryValue fs c.key = some c.value.stored := (hval c.key).trans (if_pos rfl)
    refine ⟨fun calls hne => returns_of_value hshort (setEach_keeps calls fs hne hset), fun k hne =>
      Session.readsSame_of_value ((hval k).trans (if_neg hne.symm)), fun d gs hd hgs => ?_⟩
    have hsome : (findEntry fs d.key).isSome := by
      obtain ⟨e, he, -⟩ := map_eq_some_iff.mp hset
      rw [hd, he]
      rfl
    rw [SetCall.apply_eq, configStoreSet, if_pos hsome] at hgs
    rw [← some_inj.mp hgs]
    exact length_replaceFirst _ _ _

theorem long_key_lost : ¬ ∀ (libc : Libc) (src : Source) (entries : List Entry) (key : Bytes),
    ReadsOwnWrites libc src entries key := by
  intro h
  exact not_readsOwnWrites (by decide) (by decide)
    (h plainLibc sourceAB [] (replicate 32 97))

end MiniTree.Config
