import Expunge.Proofs.Files.LinkFree
import Mathlib.Data.List.Nodup

/-!
# Changing entries in place

`FileTree.update` puts every file and link through a function, which may change it or take it away;
the order of the others stays. Changes one after the other are one change (`update_update`), so
trees that were reached in different ways can be compared as wholes.
-/

namespace Expunge.FileTree
set_option autoImplicit false

variable {t t' : FileTree} {f g : Location → Entry → Option Entry} {name : FileName}
  {dir loc : Location} {e : Entry}

/-- No location is new, and the order of the others is the same. -/
theorem sublist_update (t : FileTree) (f : Location → Entry → Option Entry) :
    ((t.update f).entries.map (·.1)).Sublist (t.entries.map (·.1)) := by
  simp only [update]
  induction t.entries with
  | nil => exact .slnil
  | cons p es ih =>
    cases h : p.2.settle (f p.1) with
    | none => simpa [h] using ih.cons p.1
    | some e => simpa [h] using ih.cons_cons p.1

/-- Trees with the same entries in the same order, where the same is refused, are the same. -/
theorem ext_entries (entries : t.entries = t'.entries) (home : t.home = t'.home)
    (refusals : t.refusals = t'.refusals) : t = t' := by
  cases t
  cases t'
  simp_all

/-! ### The order of the entries -/

/-- A look-up does not hang on the order of the entries. -/
theorem get?_of_perm (perm : t'.entries.Perm t.entries) (loc : Location) :
    t'.get? loc = t.get? loc := by
  cases loc with
  | nil => rfl
  | cons name dir =>
    ext e
    rw [get?_eq_some_iff, get?_eq_some_iff, perm.mem_iff]

theorem followNames_congr (same : ∀ loc, t'.get? loc = t.get? loc) (creating : Bool)
    (onLink : Location → List FileName → Except IoError Place) (dir : Location)
    (names : List FileName) :
    t'.followNames creating onLink dir names = t.followNames creating onLink dir names := by
  induction names generalizing dir with
  | nil => rfl
  | cons name rest ih => simp only [followNames, same, ih]

theorem follow_congr (same : ∀ loc, t'.get? loc = t.get? loc) (creating : Bool) (links : Nat) :
    t'.follow creating links = t.follow creating links := by
  funext dir names
  induction links generalizing dir names with
  | zero => exact followNames_congr same creating _ dir names
  | succ links ih =>
    have onward : t'.follow creating links = t.follow creating links := funext₂ ih
    rw [follow, follow, onward]
    exact followNames_congr same creating _ dir names

/-- What a path leads to does not hang on the order of the entries. -/
theorem find_of_perm (perm : t'.entries.Perm t.entries) (home : t'.home = t.home) (path : String) :
    t'.find path = t.find path := by
  have same := get?_of_perm perm
  simp only [find, resolve, start_congr home, follow_congr same, same]

/-- A location that is not touched is as before. -/
theorem get?_update_of_eq_some (same : ∀ e, f loc e = some e) :
    (t.update f).get? loc = t.get? loc := by
  have untouched : f loc = some := funext same
  rw [get?_update, untouched]
  cases t.get? loc with
  | none => rfl
  | some e => exact Entry.settle_some

theorem update_congr (same : ∀ p ∈ t.entries, p.2.settle (f p.1) = p.2.settle (g p.1)) :
    t.update f = t.update g :=
  ext_entries (List.filterMap_congr fun p hp => by rw [same p hp]) rfl rfl

theorem update_update (t : FileTree) (f g : Location → Entry → Option Entry) :
    (t.update f).update g = t.update fun loc e => (f loc e).bind (Entry.settle (g loc)) := by
  refine ext_entries ?_ rfl rfl
  simp only [update, List.filterMap_filterMap]
  apply List.filterMap_congr
  rintro ⟨loc, e⟩ _
  cases e with
  | directory => rfl
  | file bytes =>
    simp only [Entry.settle]
    cases f loc (.file bytes) <;> rfl
  | link target =>
    simp only [Entry.settle]
    cases f loc (.link target) <;> rfl

/-- Changing nothing gives the tree back. -/
theorem update_some (t : FileTree) : t.update (fun _ e => some e) = t :=
  ext_entries (by simp [update]) rfl rfl

theorem updateAt_congr {f g : Entry → Option Entry} (here : t.get? (name :: dir) = some e)
    (same : f e = g e) : t.updateAt (name :: dir) f = t.updateAt (name :: dir) g := by
  apply update_congr
  intro p hp
  by_cases place : p.1 = name :: dir
  · have entry : t.get? (name :: dir) = some p.2 := get?_eq_some_iff.2 (place ▸ hp)
    obtain rfl : e = p.2 := Option.some.inj (here.symm.trans entry)
    simp only [if_pos place]
    cases kind : p.2 with
    | directory => rfl
    | file _ | link _ => rwa [kind] at same
  · simp only [if_neg place]

/-- Keeping an entry gives the tree back. -/
theorem updateAt_eq_self {f : Entry → Option Entry} (here : t.get? (name :: dir) = some e)
    (same : f e = some e) : t.updateAt (name :: dir) f = t := by
  rw [updateAt_congr here (g := some) same]
  simp only [updateAt, ite_self]
  exact t.update_some

/-- Changing files keeps a tree without links. -/
theorem LinkFree.update (free : t.LinkFree)
    (files : ∀ loc e e', f loc e = some e' → e.isLink = false → e'.isLink = false) :
    (t.update f).LinkFree := by
  intro p hp
  obtain ⟨q, hq, he⟩ := List.mem_filterMap.1 hp
  obtain ⟨e, changed, rfl⟩ := Option.map_eq_some_iff.1 he
  cases kind : q.2 with
  | directory =>
    rw [kind, Entry.settle_directory, Option.some.injEq] at changed
    exact changed ▸ rfl
  | file _ | link _ =>
    rw [kind] at changed
    exact files _ _ _ changed (kind ▸ free q hq)

end Expunge.FileTree
