import Localizer.Proofs.Tables
import Localizer.Bundle.Localize
/-!
# Fallback — messages that a catalog lacks

A localized bundle has a message for each of the bundle's: the catalog's text for its key, or else a message of the
bundle.  That is the last message with the key (`Bundle.localize_last`), so where a key occurs with different messages
the earlier ones are lost (`Bundle.localize_repeated`).
-/
namespace Localizer
namespace Bundle

/-- **The last place of a key in a bundle.** -/
def LastAt (b : Bundle) (name : String) (j : Nat) : Prop :=
  (∃ key : Key, b.keys[j]? = some key ∧ key.name = name) ∧
    ∀ (k : Nat) (key : Key), j < k → b.keys[k]? = some key → key.name ≠ name

/-- **The keys that a catalog lacks**, as often as they occur; none without a catalog. -/
def lacking (b : Bundle) (catalog : Option Catalog) : List String :=
  match catalog with
  | none => []
  | some c => (b.keys.map Key.name).filter fun name => (Table.find? name c).isNone

/-- **Messages with the same key are the same.** -/
def Consistent (b : Bundle) : Prop :=
  ∀ (i j : Nat) (k k' : Key), b.keys[i]? = some k → b.keys[j]? = some k' → k.name = k'.name → b.messages[i]? = b.messages[j]?

theorem LastAt.unique {b : Bundle} {name : String} {i j : Nat} (hi : b.LastAt name i) (hj : b.LastAt name j) : i = j := by
  obtain ⟨⟨k, hk, hname⟩, hlast⟩ := hi
  obtain ⟨⟨k', hk', hname'⟩, hlast'⟩ := hj
  rcases Nat.lt_trichotomy i j with hlt | heq | hgt
  · exact absurd hname' (hlast j k' hlt hk')
  · exact heq
  · exact absurd hname (hlast' i k hgt hk)

/-- **The message that stands for a key** is the last one with it. -/
theorem find?_last {b : Bundle} (h : b.messages.length = b.keys.length) {i : Nat} {key : Key}
    (hkey : b.keys[i]? = some key) :
    ∃ j message, b.LastAt key.name j ∧ b.messages[j]? = some message ∧
      Table.find? key.name (Table.sort ((b.keys.map Key.name).zip b.messages)) = some message := by
  have hpair : ∀ {k : Nat} {other : Key}, b.keys[k]? = some other →
      ∃ message, ((b.keys.map Key.name).zip b.messages)[k]? = some (other.name, message) := by
    intro k other hk
    have hlt : k < b.messages.length := h ▸ (List.getElem?_eq_some_iff.1 hk).1
    exact ⟨b.messages[k], by simp [List.getElem?_zip_eq_some, hk, hlt]⟩
  obtain ⟨message, hmessage⟩ := hpair hkey
  obtain ⟨j, value, hj, hfind, hlast⟩ := Table.find?_reverse ⟨_, List.mem_of_getElem? hmessage, rfl⟩
  rw [List.getElem?_zip_eq_some, List.getElem?_map, Option.map_eq_some_iff] at hj
  refine ⟨j, value, ⟨hj.1, fun k other hk hother => ?_⟩, hj.2, by rw [Table.find?_sort, hfind]⟩
  obtain ⟨m, hm⟩ := hpair hother
  exact hlast k _ hk hm

theorem resolve_eq {b : Bundle} (h : b.messages.length = b.keys.length) :
    b.resolve = some ⟨b.keys.map Key.name, b.messages, Table.sort ((b.keys.map Key.name).zip b.messages)⟩ := by
  unfold resolve
  rw [if_pos (by simpa using h)]

theorem length_localize {b : Bundle} (h : b.messages.length = b.keys.length) {r : Resolved} (hr : b.resolve = some r)
    (catalog : Option Catalog) : (r.localize catalog).messages.length = b.messages.length := by
  obtain rfl := Option.some.inj ((resolve_eq h).symm.trans hr)
  simp [Resolved.localize, h]

/-- **The message of a place** is the catalog's for its key, or the last one with it. -/
theorem getElem?_localize {b : Bundle} (h : b.messages.length = b.keys.length) {r : Resolved} (hr : b.resolve = some r)
    (catalog : Option Catalog) {i : Nat} {key : Key} (hkey : b.keys[i]? = some key) :
    ∃ j message, b.LastAt key.name j ∧ b.messages[j]? = some message ∧
      (r.localize catalog).messages[i]? = some ((translated? catalog key.name).getD message) := by
  obtain rfl := Option.some.inj ((resolve_eq h).symm.trans hr)
  obtain ⟨j, message, hj, hmessage, hfind⟩ := find?_last h hkey
  refine ⟨j, message, hj, hmessage, ?_⟩
  simp [Resolved.localize, hkey, hfind]

theorem localize_none_iff {b : Bundle} (h : b.messages.length = b.keys.length) {r : Resolved} (hr : b.resolve = some r) :
    (r.localize none).messages = b.messages ↔ b.Consistent := by
  constructor
  · intro hsame i j k k' hk hk' hname
    obtain ⟨l, message, hl, hmessage, hi⟩ := getElem?_localize h hr none hk
    obtain ⟨l', message', hl', hmessage', hj⟩ := getElem?_localize h hr none hk'
    rw [← hname] at hl'
    obtain rfl := hl.unique hl'
    rw [hmessage] at hmessage'
    rw [← hsame, hi, hj, Option.some.inj hmessage']
    rfl
  · intro hcons
    refine List.ext_getElem? fun i => ?_
    cases hkey : b.keys[i]? with
    | none =>
      have hlen := List.getElem?_eq_none_iff.1 hkey
      rw [List.getElem?_eq_none (by rw [length_localize h hr]; omega), List.getElem?_eq_none (by omega)]
    | some key =>
      obtain ⟨j, message, ⟨⟨k, hk, hname⟩, -⟩, hmessage, hi⟩ := getElem?_localize h hr none hkey
      rw [hi, hcons i j key k hkey hk hname.symm, hmessage]
      rfl

/-- **A message that the catalog lacks falls back to the last one with its key.**  A bundle with as many keys as messages
is resolved, and localizing it gives as many messages: for each key the catalog's text if there is one, else the last of
the bundle's messages with that key.  The problems are the keys that the catalog lacks, in order and as often as they
occur.  Without a catalog the messages stay as they are exactly if messages with the same key are the same. -/
theorem localize_last (b : Bundle) (catalog : Option Catalog) (h : b.messages.length = b.keys.length) :
    ∃ r, b.resolve = some r ∧
      (r.localize catalog).messages.length = b.messages.length ∧
      (∀ (i : Nat) (key : Key), b.keys[i]? = some key → ∃ j message, b.LastAt key.name j ∧ b.messages[j]? = some message ∧
        (r.localize catalog).messages[i]? = some ((catalog.bind (Table.find? key.name)).getD message)) ∧
      (r.localize catalog).problems = (b.lacking catalog).map missingKey ∧
      (catalog = none → ((r.localize catalog).messages = b.messages ↔ b.Consistent)) := by
  have hr := resolve_eq h
  refine ⟨_, hr, length_localize h hr catalog, fun i key hkey => getElem?_localize h hr catalog hkey, ?_, ?_⟩
  · cases catalog <;> rfl
  · rintro rfl
    exact localize_none_iff h hr

/-- A key with two messages, and one that the catalog has. -/
theorem localize_last_repeated :
    let b : Bundle := ⟨["first", "B", "second"], [.bare "a", .bare "b", .commented "a" ["note"]]⟩
    let catalog : Option Catalog := some [("b", "Bé")]
    b.messages.length = b.keys.length ∧ ∃ r, b.resolve = some r ∧
      (r.localize catalog).messages = ["second", "Bé", "second"] ∧
      (r.localize catalog).problems = [missingKey "a", missingKey "a"] := by
  intro b catalog
  have h : b.messages.length = b.keys.length := rfl
  obtain ⟨r, hr, -, -, hproblems, -⟩ := localize_last b catalog h
  refine ⟨h, r, hr, ?_, hproblems⟩
  obtain rfl := Option.some.inj ((resolve_eq h).symm.trans hr)
  decide

/-- **A repeated key loses its first message** even without a catalog. -/
theorem localize_repeated :
    let b : Bundle := ⟨["first", "second"], [.bare "a", .bare "a"]⟩
    b.messages.length = b.keys.length ∧ ∃ r, b.resolve = some r ∧
      (r.localize none).messages[0]? = some "second" ∧ (r.localize none).messages ≠ b.messages := by
  refine ⟨rfl, _, resolve_eq rfl, ?_, ?_⟩
  · decide
  · decide

end Bundle
end Localizer
