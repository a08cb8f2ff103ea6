import KernelMaps.Proofs.Codec.Room
import KernelMaps.Proofs.Map.Dumps

/-!
Texts for the values of all CPUs. They are stored as one row, with the share of each CPU at the start
of a slot of its own and zeros behind it. Whatever holds the same shares shows the same texts, with
anything behind them.
-/

namespace KernelMaps

theorem Store.lookup_of_update {store changed : Store} {key value : Bytes} {flags : UInt64}
    (updated : store.update (some key) value flags = .ok changed) :
    changed.lookup (some key) value.length = .ok value := by
  have copied : copyTo value.length value = .ok value := if_pos rfl
  rcases update_cases updated with ⟨slots, index, number, inside, kept⟩ |
    ⟨capacity, entries, here, same, rfl, rfl⟩ | ⟨newestFirst, capacity, items, longer, none, -⟩
  · have here : (slots.setIfInBounds index (some value))[index]? = some (some value) :=
      Array.getElem?_setIfInBounds_self_of_lt inside
    rcases kept with ⟨rfl, rfl⟩ | ⟨rfl, rfl⟩
    · simp only [lookup, number, bind, Except.bind, here]
      exact copied
    · simp only [lookup, number, bind, Except.bind, here]
      exact copied
  · obtain rfl := Option.some.inj same
    simp only [lookup, OrderedMap.get?_insert, if_true]
    exact copied
  · contradiction

namespace Descriptor

/-- Whether a row has one slot for each share, with the share at its start. What stands behind the
shares is left open. -/
structure HoldsShares (map : Descriptor) (shares : List Bytes) (row : Bytes) : Prop where
  count : shares.length = map.cpus
  length : row.length = map.cpus * map.slotSize
  share : ∀ cpu share, shares[cpu]? = some share →
    (row.drop (cpu * map.slotSize)).take map.valueSize = share

def ZeroPadded (map : Descriptor) (row : Bytes) : Prop :=
  ∀ cpu < map.cpus, ∀ offset, map.valueSize ≤ offset → offset < map.slotSize →
    row[cpu * map.slotSize + offset]? = some 0

variable {map : Descriptor} {shares : List Bytes} {row : Bytes}

theorem holdsShares_of_fitted (fits : map.SlotsFit) (count : shares.length = map.cpus)
    (sized : ∀ share ∈ shares, share.length = map.valueSize) :
    map.HoldsShares shares (shares.flatMap fun share => fitted map.slotSize share) := by
  refine ⟨count, ?_, ?_⟩
  · rw [flatMap_fitted_length, count]
  · intro cpu share here
    have exact := sized share (List.mem_of_getElem? here)
    have covers := fits.valueSize_le_slotSize
    rw [← exact] at covers ⊢
    exact start_of_fitted here covers

theorem zeroPadded_of_fitted (count : shares.length = map.cpus)
    (sized : ∀ share ∈ shares, share.length = map.valueSize) :
    map.ZeroPadded (shares.flatMap fun share => fitted map.slotSize share) := by
  intro cpu below offset behind within
  rw [← count] at below
  have exact := sized _ (List.getElem_mem below)
  exact zero_behind_fitted (List.getElem?_eq_getElem below) (exact ▸ behind) within

theorem HoldsShares.share_length (fits : map.SlotsFit) (holds : map.HoldsShares shares row) :
    ∀ share ∈ shares, share.length = map.valueSize := by
  intro share member
  obtain ⟨cpu, below, rfl⟩ := List.getElem_of_mem member
  have covers := fits.valueSize_le_slotSize
  have slot := holds.share cpu _ (List.getElem?_eq_getElem below)
  have within : (cpu + 1) * map.slotSize ≤ map.cpus * map.slotSize :=
    Nat.mul_le_mul_right _ (holds.count ▸ below)
  rw [Nat.succ_mul] at within
  rw [← slot, List.length_take, List.length_drop, holds.length]
  omega

theorem lookupIn_of_lookup {store : Store} {key value : Bytes} (keyed : map.kind.isKeyless = false)
    (sized : key.length = map.keySize) (fills : value.length = map.bufferSize)
    (found : store.lookup (some key) map.bufferSize = .ok value) :
    map.lookupIn store key = .ok (some value) := by
  rw [lookupIn, keyArgument_of_keyed keyed sized]
  simp only [found, handedOut, fitted_of_length _ _ fills]

theorem keyed_of_perCpu {kind : Kind} (perCpu : kind.isPerCpu = true) : kind.isKeyless = false := by
  cases kind <;> first | rfl | contradiction

end Descriptor

namespace Table

variable {table : Table} {key row : Bytes} {keyText : String} {texts : List String}
  {shares : List Bytes}

theorem shares_of_holds (fits : table.map.SlotsFit) (holds : table.map.HoldsShares shares row) :
    table.shares row = shares := by
  have covers := fits.valueSize_le_slotSize
  have count : row.length / table.map.slotSize = shares.length := by
    rw [holds.length, holds.count, Nat.mul_div_cancel _ Descriptor.slotSize_pos]
  rw [Table.shares, count]
  apply List.ext_getElem?
  intro cpu
  cases here : shares[cpu]? with
  | none =>
      rw [List.getElem?_eq_none_iff] at here ⊢
      rwa [List.length_map, slots_length]
  | some share =>
      obtain ⟨below, _⟩ := List.getElem?_eq_some_iff.1 here
      rw [List.getElem?_map, getElem?_slots below, Option.map_some, List.take_take,
        Nat.min_eq_left covers, holds.share cpu share here]

theorem shareTexts_of_holds (fits : table.map.SlotsFit) (holds : table.map.HoldsShares shares row) :
    table.shareTexts row = shares.mapM (table.map.valueText table.factor) := by
  rw [shareTexts, shares_of_holds fits holds]
  refine mapM_congr fun share member => if_neg ?_
  rw [holds.share_length fits share member]
  exact Nat.lt_irrefl _

/-- Whether texts for all CPUs are taken: one for each of them, each that has a slot is read, and the
text of the key as well. -/
def ReadsRow (table : Table) (keyText : String) (texts : List String) : Prop :=
  texts.length = table.map.cpus ∧ (∀ text ∈ table.reached texts, table.ReadsShare text) ∧
    ∃ key, table.map.keyOfText keyText = .ok key

theorem valuesOfTexts_length (readValues : texts.mapM table.map.valueOfText = .ok shares) :
    ∀ share ∈ shares, share.length = table.map.valueSize := by
  intro share member
  obtain ⟨cpu, below, rfl⟩ := List.getElem_of_mem member
  have read := forall₂_of_mapM readValues
  exact Descriptor.valueOfText_length (read.get (by rwa [read.length_eq]) below)

theorem updatePerCpu_refused_iff (perCpu : table.map.kind.isPerCpu = true) :
    (∃ error, (table.updatePerCpu keyText texts).run = .done (.error error)) ↔
      ¬table.ReadsRow keyText texts := by
  constructor
  · rintro ⟨error, ends⟩ ⟨count, values, key, read⟩
    have silent : (table.updatePerCpu keyText texts).run.AtMost 0 := by
      rw [ends]
      trivial
    refine (table.updatePerCpu_atomic keyText texts).silent.1 silent ⟨perCpu, count, values, key,
      read, ?_⟩
    rw [Descriptor.keyOfText_length read,
      Descriptor.callKeySize_of_keyed (Descriptor.keyed_of_perCpu perCpu)]
  · intro refused
    rw [updatePerCpu, perCpu, Attempt.mapM_liftM]
    by_cases count : texts.length = table.map.cpus
    · simp only [count, ne_eq, not_true_eq_false, if_false]
      cases readValues : (table.reached texts).mapM table.shareOfText with
      | error error => exact ⟨error, rfl⟩
      | ok shares =>
          cases readKey : table.map.keyOfText keyText with
          | error error => exact ⟨error, rfl⟩
          | ok key =>
              have read := exists_mapM_eq_ok.1 ⟨shares, readValues⟩
              exact absurd ⟨count, read, key, readKey⟩ refused
    · simp only [count, ne_eq, not_false_eq_true, if_true]
      exact ⟨_, rfl⟩

section

variable (fits : table.map.SlotsFit)
include fits

theorem readsRow_of_fits (perCpu : table.map.kind.isPerCpu = true) :
    table.ReadsRow keyText texts ↔
      texts.length = table.map.cpus ∧ (∀ text ∈ texts, table.ReadsValue text) ∧
        ∃ key, table.map.keyOfText keyText = .ok key := by
  refine and_congr_right fun count => ?_
  simp only [reached_of_fits fits perCpu count, ReadsShare, shareOfText_of_fits fits, ReadsValue]

end

/-- What texts for all CPUs are stored as. They are one call, with a row of what they are read as,
and a map in memory has the row afterwards, unless it refuses it and stays as it was. -/
structure StoresRow (table : Table) (key : Bytes) (shares : List Bytes) (keyText : String)
    (texts : List String) (row : Bytes) : Prop where
  holds : table.map.HoldsShares shares row
  padded : table.map.ZeroPadded row
  call : (table.updatePerCpu keyText texts).Single (.update (some key) row 0)
  stored : ∀ (simulation : Simulation) (store changed : Store), simulation.Serves store →
    store.update (some key) row 0 = .ok changed →
      changed.lookup (some key) table.map.bufferSize = .ok row ∧
        ∃ after, after.Serves changed ∧
          simulation.run (table.updatePerCpu keyText texts) = (.ok (), after)
  refused : ∀ (simulation : Simulation) (store : Store) (errno : Errno), simulation.Serves store →
    store.update (some key) row 0 = .error errno →
      ∃ after, after.Serves store ∧ simulation.run (table.updatePerCpu keyText texts) =
        (.error (.call .updatingValue (.system errno)), after)

theorem storesRow (fits : table.map.SlotsFit) (perCpu : table.map.kind.isPerCpu = true)
    (readKey : table.map.keyOfText keyText = .ok key) (count : texts.length = table.map.cpus)
    (readValues : texts.mapM table.map.valueOfText = .ok shares) :
    table.StoresRow key shares keyText texts
      (shares.flatMap fun share => fitted table.map.slotSize share) := by
  have sized := valuesOfTexts_length readValues
  have cpus : shares.length = table.map.cpus := (mapM_length readValues).trans count
  have holds := Descriptor.holdsShares_of_fitted fits cpus sized
  have fills := holds.length.trans (fits.bufferSize_eq perCpu).symm
  have keyed := Descriptor.keyed_of_perCpu perCpu
  have exact := Descriptor.keyOfText_length readKey
  have sent := Descriptor.keyArgument_of_keyed keyed exact
  have one := updatePerCpu_of_fits fits perCpu readKey count readValues
  refine ⟨holds, Descriptor.zeroPadded_of_fitted cpus sized, ?_, ?_, ?_⟩
  · have accepted := exact.trans (Descriptor.callKeySize_of_keyed keyed).symm
    have called := Descriptor.update_single accepted fills 0
    rwa [one, show some key = table.map.sentKey key by simp [Descriptor.sentKey, keyed]]
  · intro simulation store changed serves updated
    have found := Store.lookup_of_update updated
    rw [fills] at found
    obtain ⟨after, ran⟩ := serves.run_update sent fills 0
    rw [updated, ← one] at ran
    exact ⟨found, after, ran⟩
  · intro simulation store errno serves updated
    obtain ⟨after, ran⟩ := serves.run_update sent fills 0
    rw [updated, ← one] at ran
    exact ⟨after, ran⟩

/-- What is shown of a key under which a row with these shares stands, whatever stands in the row
besides and whichever text asks for the key. -/
def Shows (table : Table) (key : Bytes) (shares : List Bytes)
    (shown : Except MapError (List String)) : Prop :=
  ∀ (simulation : Simulation) (store : Store) (row : Bytes) (text : String),
    simulation.Serves store → store.lookup (some key) table.map.bufferSize = .ok row →
      table.map.HoldsShares shares row → table.map.keyOfText text = .ok key →
        ∃ after, after.Serves store ∧ simulation.run (table.getPerCpu text) = (shown, after)

theorem shows_shares (fits : table.map.SlotsFit) (perCpu : table.map.kind.isPerCpu = true)
    (sized : key.length = table.map.keySize) (shares : List Bytes) :
    table.Shows key shares (shares.mapM (table.map.valueText table.factor)) := by
  intro simulation store row text serves found holds read
  have fills := holds.length.trans (fits.bufferSize_eq perCpu).symm
  have stored := Descriptor.lookupIn_of_lookup (Descriptor.keyed_of_perCpu perCpu) sized fills found
  obtain ⟨after, kept, looked⟩ := run_lookup serves read stored
  refine ⟨after, kept, ?_⟩
  simp only [getPerCpu, perCpu, Bool.not_true, Bool.false_eq_true, if_false, Simulation.run_bind,
    looked, Simulation.run_liftM, shareTexts_of_holds fits holds]

theorem exists_renderings (faithful : Codec.Faithful table.map.valueCodec table.map.valueSize)
    (enough : Descriptor.textFactor ≤ table.factor)
    (room : Descriptor.RoomFits table.map.valueSize table.factor)
    (sized : ∀ share ∈ shares, share.length = table.map.valueSize) :
    ∃ shown, List.Forall₂ (fun share (text : String) =>
        Codec.Rendering table.map.valueCodec share text.toList) shares shown ∧
      shares.mapM (table.map.valueText table.factor) = .ok shown := by
  induction shares with
  | nil => exact ⟨[], .nil, rfl⟩
  | cons share shares ih =>
      rw [List.forall_mem_cons] at sized
      obtain ⟨others, rendered, shown⟩ := ih sized.2
      obtain ⟨text, rendering⟩ := Codec.exists_rendering faithful sized.1
      have first := Descriptor.valueText_of_writes enough room faithful sized.1 rendering.writes
      refine ⟨String.ofList text :: others, .cons (by rwa [String.toList_ofList]) rendered, ?_⟩
      rw [List.mapM_cons, first, shown]
      rfl

/-- What becomes of texts for all CPUs where no size wraps around. Anything but one text for each CPU
is refused before the map is asked. The others go into one row, each share at the start of a slot
that takes a whole number of eight bytes, and what holds these shares shows the complete texts of
them, in the order of the CPUs. -/
structure KeepsTexts (table : Table) (keyText : String) (texts : List String) : Prop where
  slot : IsLeast
    {size | 0 < size ∧ Descriptor.slotAlignment ∣ size ∧ table.map.valueSize ≤ size}
    table.map.slotSize
  refused : (∃ error, (table.updatePerCpu keyText texts).run = .done (.error error)) ↔
    ¬(texts.length = table.map.cpus ∧ (∀ text ∈ texts, table.ReadsValue text) ∧
      ∃ key, table.map.keyOfText keyText = .ok key)
  stored : ∀ key shares, texts.length = table.map.cpus → table.map.keyOfText keyText = .ok key →
    List.Forall₂ (fun text share => table.map.valueOfText text = .ok share) texts shares →
      (∃ row, table.StoresRow key shares keyText texts row) ∧
      table.Shows key shares (shares.mapM (table.map.valueText table.factor)) ∧
      (Codec.Faithful table.map.valueCodec table.map.valueSize →
        Descriptor.textFactor ≤ table.factor →
          Descriptor.RoomFits table.map.valueSize table.factor →
            ∃ shown, List.Forall₂ (fun share (text : String) =>
                Codec.Rendering table.map.valueCodec share text.toList) shares shown ∧
              shares.mapM (table.map.valueText table.factor) = .ok shown)

theorem keepsTexts (fits : table.map.SlotsFit) (perCpu : table.map.kind.isPerCpu = true)
    (keyText : String) (texts : List String) : table.KeepsTexts keyText texts where
  slot := Descriptor.slotSize_isLeast fits.slot
  refused := (updatePerCpu_refused_iff perCpu).trans (not_congr (readsRow_of_fits fits perCpu))
  stored := by
    intro key shares count readKey readValues
    have read := mapM_of_forall₂ readValues
    refine ⟨⟨_, storesRow fits perCpu readKey count read⟩,
      shows_shares fits perCpu (Descriptor.keyOfText_length readKey) shares, ?_⟩
    intro faithful enough room
    exact exists_renderings faithful enough room (valuesOfTexts_length read)

end Table

def colours : Descriptor where
  name := "colours"
  kind := .lruPercpuHash
  keySize := 2
  valueSize := 3
  capacity := 4
  fd := 4
  ownsFd := true
  cpuCount := 3
  keyCodec := .hex
  valueCodec := .hex

def colourTable : Table := ⟨colours, Descriptor.textFactor⟩

def smudged : Bytes :=
  [1, 2, 3, 9, 9, 9, 9, 9, 4, 5, 6, 0, 0, 0, 0, 255, 7, 8, 9, 0, 0, 0, 0, 0]

def smudgedStore : Store :=
  (Store.empty colours.kind colours.capacity.toNat).seed [1, 2] smudged

end KernelMaps
