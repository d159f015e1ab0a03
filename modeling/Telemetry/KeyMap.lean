/-!
# Maps in key order

A map from texts, kept as the list of its entries in strictly increasing order of their keys, so
that equal maps are equal lists and writing a map needs no sorting.  Keys are ordered by their
characters' code points, which is also the order of their bytes.
-/

namespace Telemetry

def KeysIncreasing {β : Type} (entries : List (String × β)) : Prop :=
  entries.Pairwise fun a b => a.1 < b.1

/-- A finite map from texts, in key order. -/
structure KeyMap (β : Type) where
  entries : List (String × β)
  increasing : KeysIncreasing entries

namespace KeyMap

variable {β : Type}

def empty : KeyMap β := ⟨[], .nil⟩

instance : Inhabited (KeyMap β) := ⟨empty⟩

def get? (m : KeyMap β) (key : String) : Option β :=
  (m.entries.find? fun e => e.1 == key).map (·.2)

def contains (m : KeyMap β) (key : String) : Bool := m.entries.any fun e => e.1 == key

def keys (m : KeyMap β) : List String := m.entries.map (·.1)

def size (m : KeyMap β) : Nat := m.entries.length

/-- The entries with one put at its place, in the stead of one with the same key. -/
def putEntry (key : String) (value : β) : List (String × β) → List (String × β)
  | [] => [(key, value)]
  | (k, v) :: rest =>
    if key < k then (key, value) :: (k, v) :: rest
    else if k < key then (k, v) :: putEntry key value rest
    else (key, value) :: rest

/-- A key of the enlarged list is the new one or an old one. -/
theorem mem_putEntry {key : String} {value : β} {entries : List (String × β)} {e : String × β}
    (h : e ∈ putEntry key value entries) : e = (key, value) ∨ e ∈ entries := by
  induction entries with
  | nil => simpa [putEntry] using h
  | cons head rest ih =>
    obtain ⟨k, v⟩ := head
    unfold putEntry at h
    split at h
    · simpa using h
    · split at h
      · rcases List.mem_cons.1 h with h | h
        · exact .inr (h ▸ List.mem_cons_self)
        · exact (ih h).imp_right (List.mem_cons_of_mem _)
      · rcases List.mem_cons.1 h with h | h
        · exact .inl h
        · exact .inr (List.mem_cons_of_mem _ h)

/-- Putting an entry keeps the keys increasing. -/
theorem putEntry_increasing {key : String} {value : β} {entries : List (String × β)}
    (h : KeysIncreasing entries) : KeysIncreasing (putEntry key value entries) := by
  induction entries with
  | nil => simp [putEntry, KeysIncreasing]
  | cons head rest ih =>
    obtain ⟨k, v⟩ := head
    have hrest := List.pairwise_cons.1 h
    unfold putEntry
    split
    · rename_i hlt
      refine List.pairwise_cons.2 ⟨fun e he => ?_, h⟩
      rcases List.mem_cons.1 he with rfl | he
      · exact hlt
      · exact String.lt_trans hlt (hrest.1 e he)
    · split
      · rename_i hlt
        refine List.pairwise_cons.2 ⟨fun e he => ?_, ih hrest.2⟩
        rcases mem_putEntry he with rfl | he
        · exact hlt
        · exact hrest.1 e he
      · rename_i hge hle
        have hk : key = k := String.le_antisymm (String.not_lt.1 hle) (String.not_lt.1 hge)
        subst hk
        exact List.pairwise_cons.2 hrest

/-- The map with one entry put. -/
def insert (m : KeyMap β) (key : String) (value : β) : KeyMap β :=
  ⟨putEntry key value m.entries, putEntry_increasing m.increasing⟩

def erase (m : KeyMap β) (key : String) : KeyMap β :=
  ⟨m.entries.filter fun e => e.1 != key, m.increasing.filter _⟩

/-- Puts entries one after the other; the last one of a key stays. -/
def insertAll (m : KeyMap β) (entries : List (String × β)) : KeyMap β :=
  entries.foldl (fun m e => m.insert e.1 e.2) m

def ofList (entries : List (String × β)) : KeyMap β := empty.insertAll entries

end KeyMap

end Telemetry
