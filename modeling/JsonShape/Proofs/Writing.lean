import JsonShape.Entries
import Mathlib.Data.Finset.Card
import Mathlib.Data.List.Induction

/-!
# Writing — what pairs leave that are written one after another

A key that is written again keeps its place and gets the new value. So after any
pairs the keys stand in the order in which they first came, each once, and a
lookup finds what was written last under its key. Where the pairs have distinct
keys, their order shows in the place of the entries only.
-/

namespace JsonShape

/-! ## First and last occurrences -/

/-- One key more is a first occurrence unless the key has come before. -/
theorem eraseDups_concat (keys : List String) (key : String) :
    (keys ++ [key]).eraseDups =
      if key ∈ keys then keys.eraseDups else keys.eraseDups ++ [key] := by
  have hone : [key].eraseDups = [key] := rfl
  rw [List.eraseDups_append]
  by_cases h : key ∈ keys <;> simp [List.removeAll, h, hone]

theorem nodup_eraseDups (keys : List String) : keys.eraseDups.Nodup := by
  induction keys using List.reverseRecOn with
  | nil => exact List.nodup_nil
  | append_singleton before key ih =>
      rw [eraseDups_concat]
      split
      · exact ih
      · rename_i hnew
        refine List.nodup_append.mpr ⟨ih, List.pairwise_singleton _ _, ?_⟩
        rintro other hother _ hkey rfl
        rw [List.mem_singleton.mp hkey, List.mem_eraseDups] at hother
        exact hnew hother

/-- The first occurrences are as many as there are distinct keys. -/
theorem length_eraseDups (keys : List String) :
    keys.eraseDups.length = keys.toFinset.card := by
  rw [← List.toFinset_card_of_nodup (nodup_eraseDups keys)]
  congr 1
  ext key
  simp

theorem findRev?_concat {α : Type} (p : α → Bool) (items : List α) (item : α) :
    (items ++ [item]).findRev? p = if p item then some item else items.findRev? p := by
  rw [List.findRev?_eq_find?_reverse, List.findRev?_eq_find?_reverse,
    List.reverse_append]
  simp only [List.reverse_singleton, List.singleton_append, List.find?_cons]
  cases p item <;> rfl

theorem findRev?_map {α β : Type} (f : α → β) (p : β → Bool) (items : List α) :
    (items.map f).findRev? p = (items.findRev? (p ∘ f)).map f := by
  rw [List.findRev?_eq_find?_reverse, List.findRev?_eq_find?_reverse,
    ← List.map_reverse, List.find?_map]

namespace Entries

variable {α : Type}

theorem putAll_concat (entries : Entries α) (pairs : List (String × α))
    (key : String) (value : α) :
    entries.putAll (pairs ++ [(key, value)]) = (entries.putAll pairs).put key value :=
  List.foldl_append

theorem ofList_concat (pairs : List (String × α)) (key : String) (value : α) :
    ofList (pairs ++ [(key, value)]) = (ofList pairs).put key value :=
  putAll_concat [] pairs key value

/-- A lookup finds what was written last, or else what was there before. -/
theorem lookup_putAll (entries : Entries α) (pairs : List (String × α)) (key : String) :
    (entries.putAll pairs).lookup key =
      ((pairs.findRev? (·.1 == key)).map Prod.snd).or (entries.lookup key) := by
  induction pairs using List.reverseRecOn with
  | nil => rfl
  | append_singleton before pair ih =>
      obtain ⟨k, value⟩ := pair
      rw [putAll_concat, findRev?_concat]
      by_cases hk : k = key
      · subst hk
        rw [lookup_put_self]
        simp
      · rw [lookup_put_ne _ (Ne.symm hk), ih]
        simp [hk]

theorem lookup_ofList (pairs : List (String × α)) (key : String) :
    (ofList pairs).lookup key = (pairs.findRev? (·.1 == key)).map Prod.snd :=
  (lookup_putAll [] pairs key).trans Option.or_none

/-- The keys stand in the order in which they first came. -/
theorem keys_ofList (pairs : List (String × α)) :
    (ofList pairs).keys = (pairs.map Prod.fst).eraseDups := by
  induction pairs using List.reverseRecOn with
  | nil => rfl
  | append_singleton before pair ih =>
      obtain ⟨key, value⟩ := pair
      rw [ofList_concat, List.map_append, List.map_singleton, eraseDups_concat]
      split
      · rename_i hknown
        rw [keys_put_of_mem (by rwa [ih, List.mem_eraseDups]), ih]
      · rename_i hnew
        rw [keys_put_of_not_mem (by rwa [ih, List.mem_eraseDups]), ih]

theorem length_ofList (pairs : List (String × α)) :
    (ofList pairs).length = (pairs.map Prod.fst).toFinset.card := by
  rw [← length_keys, keys_ofList, length_eraseDups]

/-! ## Distinct keys -/

/-- Entries with distinct keys, written in their order, are left as they are. -/
theorem ofList_of_nodup {entries : Entries α} (h : entries.keys.Nodup) :
    ofList entries = entries := by
  induction entries using List.reverseRecOn with
  | nil => rfl
  | append_singleton before e ih =>
      obtain ⟨key, value⟩ := e
      obtain ⟨hbefore, hnew⟩ := nodup_keys_concat h
      rw [ofList_concat, ih hbefore, put_of_not_mem hnew]

/-- Of distinct keys none is written twice, so a lookup does not show the order of
the writes. -/
theorem lookup_putAll_perm {pairs others : List (String × α)} (hp : pairs.Perm others)
    (h : (keys pairs).Nodup) (entries : Entries α) (key : String) :
    (entries.putAll pairs).lookup key = (entries.putAll others).lookup key := by
  have hothers : (keys others).Nodup := (hp.map Prod.fst).nodup h
  rw [lookup_putAll, lookup_putAll, ← lookup_ofList, ← lookup_ofList, ofList_of_nodup h,
    ofList_of_nodup hothers, lookup_perm hp h]

end Entries

end JsonShape
