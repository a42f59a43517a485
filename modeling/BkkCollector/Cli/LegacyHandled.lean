import BkkCollector.Cli.MigrateLegacy

/-! # What the legacy inventory takes off the work list

A migration inventories every completed date, also those with poll journals whose manifest the
backup has not built yet, and the backup then leaves them alone.

* `stillPending_iff`: a date stays on the work list exactly when the last inventory found it
  `v2_complete`, or could not read one of its files.
* `not_stillPending`: a collected date without a manifest is taken off.
-/

namespace BkkCollector.Cli.LegacyHandled

open BkkCollector.Config BkkCollector.Logic.Program BkkCollector.Python.Objects
open BkkCollector.Python.Documents BkkCollector.Python.Collections
open BkkCollector.Archive.DataDir BkkCollector.Archive.Remote BkkCollector.Archive.Backup
open BkkCollector.Cli.MigrateLegacy

variable {B : Type}

/-! ### What is read back -/

/-- The entry of a date is handled if its inventory says so. -/
theorem handledDate_toDoc (e : DateEntry) :
    handledDate e.toDoc =
      if e.inventory.legacyHandled then some e.inventory.date else none := by
  have hname : (Doc.str e.inventory.classification.name).eqStr "v2_complete" =
      decide (e.inventory.classification = .v2Complete) := by
    rw [Doc.eqStr_str]
    cases e.inventory.classification <;> decide
  have hfields : handledDate e.toDoc =
      if e.inventory.inventoryComplete && e.inventory.legacyHandled &&
          !(Doc.str e.inventory.classification.name).eqStr "v2_complete" then
        some e.inventory.date else none := rfl
  rw [hfields, hname]
  unfold DateInventory.legacyHandled
  by_cases hclass : e.inventory.classification = .v2Complete
  · simp [hclass]
  · by_cases hcomplete : e.inventory.inventoryComplete = true
    · simp [hclass, hcomplete]
    · simp [hcomplete]

/-- The dates an inventory handles. -/
def handledDates (inventories : List DateInventory) : List String :=
  (inventories.filter DateInventory.legacyHandled).map DateInventory.date

theorem filterMap_handledDate (entries : List DateEntry) :
    (entries.map DateEntry.toDoc).filterMap handledDate =
      handledDates (entries.map DateEntry.inventory) := by
  induction entries with
  | nil => rfl
  | cons e entries ih =>
    rw [List.map_cons, List.filterMap_cons, handledDate_toDoc, ih, List.map_cons]
    unfold handledDates
    rw [List.filter_cons]
    by_cases hhandled : e.inventory.legacyHandled = true
    · rw [if_pos hhandled, if_pos hhandled, List.map_cons]
    · rw [if_neg hhandled, if_neg hhandled]

theorem handledLegacy_of_inventory {C : Contents B} {d : DataDir B} {i : Inventory}
    (h : readJson C d legacyInventoryPath (.dict []) = i.toDoc) :
    handledLegacy C d = .ok (handledDates (i.dates.map DateEntry.inventory)) := by
  rw [← filterMap_handledDate]
  unfold handledLegacy
  rw [h]
  rfl

/-! ### What a migration leaves alone -/

/-- Everything but the legacy receipts is as it was. -/
def Frame (d e : DataDir B) : Prop :=
  ∀ path, (∀ name, path ≠ legacyReceiptPath name) → e.lookup path = d.lookup path

theorem Frame.refl (d : DataDir B) : Frame d d := fun _ _ => rfl

theorem Frame.trans {d e f : DataDir B} (h : Frame d e) (h' : Frame e f) : Frame d f :=
  fun path hp => (h' path hp).trans (h path hp)

theorem frame_putFile (d : DataDir B) (name : String) (content : B) :
    Frame d (putFile d (legacyReceiptPath name) content) :=
  fun _ hp => lookup_putFile (hp name)

theorem frame_replaceFile {d e : DataDir B} {source target : String}
    (h : replaceFile d (legacyReceiptPath source) (legacyReceiptPath target) = .ok e) :
    Frame d e := by
  intro path hp
  unfold replaceFile at h
  split at h
  · cases h
    rw [AList.lookup_insert_ne (hp target), AList.lookup_erase_ne (hp source)]
  · cases h

section Moves

variable {R : DataDir B → DataDir B → Prop}

theorem moves_remoteStatuses (hrefl : ∀ d, R d d) (enabled : Bool) (files : List LegacyFile) :
    (remoteStatuses enabled files : ArchiveProg B Statuses).Moves (Between R) := by
  unfold remoteStatuses
  split
  · exact (moves_pathsInfos _ hrefl _).bind fun _ => trivial
  · exact trivial

theorem moves_statusesFor (hrefl : ∀ d, R d d) (checkRemote enabled : Bool)
    (files : List LegacyFile) :
    (statusesFor checkRemote enabled files : ArchiveProg B Statuses).Moves (Between R) := by
  unfold statusesFor
  split
  · unfold statusesOrFailure
    refine (moves_remoteStatuses hrefl enabled files).attempt.bind fun r => ?_
    cases r <;> exact trivial
  · exact trivial

theorem moves_inventoryDates (C : Contents B) (parse : String → Option ℤ)
    (checkRemote enabled : Bool) (dates : List String) :
    (inventoryDates C parse checkRemote enabled dates).Moves (Between Frame) := by
  induction dates with
  | nil => exact trivial
  | cons date dates ih =>
    unfold inventoryDates
    exact (moves_look Frame.refl).bind fun i =>
      (moves_statusesFor Frame.refl _ _ _).bind fun _ => ih.bind fun _ => trivial

theorem moves_inventory (m : Migrator B) (checkRemote : Bool) :
    (inventory m checkRemote).Moves (Between Frame) := by
  unfold inventory
  exact (moves_look Frame.refl).bind fun dates => (moves_inventoryDates _ _ _ _ _).bind fun _ =>
    (moves_look Frame.refl).bind fun _ => (moves_statusesFor Frame.refl _ _ _).bind fun _ => trivial

theorem moves_uploadFiles (statuses : Statuses) (files : List LegacyFile) :
    (uploadFiles statuses files : ArchiveProg B (List String)).Moves (Between Frame) := by
  induction files with
  | nil => exact trivial
  | cons f files ih =>
    unfold uploadFiles
    split
    · exact ih
    · refine (Prog.Moves.attempt (moves_ask Frame.refl)).bind fun r => ?_
      cases r with
      | ok _ => exact ih
      | error e => exact ih.bind fun _ => trivial

theorem moves_copyFiles (enabled : Bool) (statuses : Statuses) (files : List LegacyFile) :
    (copyFiles enabled statuses files : ArchiveProg B (Statuses × List String)).Moves
      (Between Frame) := by
  unfold copyFiles
  split
  · refine (moves_uploadFiles statuses files).bind fun errors => ?_
    refine (moves_remoteStatuses Frame.refl enabled files).attempt.bind fun r => ?_
    cases r <;> exact trivial
  · exact trivial

theorem moves_verifyReceipt (m : Migrator B) (kind : String) (pending target : Path)
    (confirmed : Bool) : (verifyReceipt m kind pending target confirmed).Moves (Between Frame) := by
  unfold verifyReceipt
  split
  · refine (moves_look Frame.refl).bind fun f => (moves_look Frame.refl).bind fun sha256 => ?_
    have hconfirm : (confirmReceipt kind pending target (m.contents.size f.content) sha256 :
        ArchiveProg B Unit).Moves (Between Frame) := by
      unfold confirmReceipt
      exact Prog.Moves.bind (moves_ask Frame.refl) fun _ => moves_verifyRemote _ _ Frame.refl
    exact hconfirm.attempt.bind fun _ => trivial
  · exact trivial

theorem moves_writeReceipt (m : Migrator B) (kind name : String) (confirmed : Bool)
    (receipt : Doc) : (writeReceipt m kind name confirmed receipt).Moves (Between Frame) := by
  unfold writeReceipt
  refine Prog.Moves.bind (moves_change Frame.refl fun d => frame_putFile d _ _) fun _ => ?_
  refine (moves_verifyReceipt m kind _ _ confirmed).bind fun verified => ?_
  refine Prog.Moves.bind (moves_onDisk Frame.refl fun d r hr => ?_) fun _ => trivial
  cases he : replaceFile d (legacyReceiptPath ("." ++ name ++ ".pending"))
      (legacyReceiptPath name) with
  | ok e =>
    rw [he] at hr
    cases hr
    exact frame_replaceFile he
  | error e =>
    rw [he] at hr
    cases hr

theorem moves_applyDates (m : Migrator B) (entries : List DateEntry) :
    (applyDates m entries).Moves (Between Frame) := by
  induction entries with
  | nil => exact trivial
  | cons e entries ih =>
    unfold applyDates
    dsimp only
    split
    · exact ih.bind fun _ => trivial
    · refine (moves_copyFiles _ _ _).bind fun copied => ?_
      exact (moves_writeReceipt _ _ _ _ _).bind fun _ => ih.bind fun _ => trivial

theorem moves_applyCopies (m : Migrator B) (i : Inventory) :
    (applyCopies m i).Moves (Between Frame) := by
  have hcreate : (createRepo m.enabled : ArchiveProg B Unit).Moves (Between Frame) := by
    unfold createRepo
    split
    · exact moves_ask Frame.refl
    · exact trivial
  have hstatic : (applyStatic m i.static).Moves (Between Frame) := by
    unfold applyStatic
    refine (moves_copyFiles _ _ _).bind fun copied => ?_
    exact (moves_writeReceipt _ _ _ _ _).bind fun _ => trivial
  unfold applyCopies
  exact hcreate.bind fun _ => (moves_applyDates m i.dates).bind fun _ =>
    hstatic.bind fun _ => trivial

end Moves

/-! ### What a migration writes -/

/-- Programs that run alone. -/
abbrev alone : Contract (World B) Op Reply := Contract.alone (fun _ _ _ => True) fun _ _ => True

theorem ensures_trivial {α : Type} (p : ArchiveProg B α) (w : World B) :
    Ensures alone (fun _ _ => True) (fun _ _ => True) p w := by
  induction p generalizing w with
  | pure a => exact fun _ _ => trivial
  | throw e => exact fun _ _ => trivial
  | act op eff next ih => exact fun _ _ c _ => ⟨trivial, ih c _ _⟩

/-- A program that only asks. -/
theorem ensures_asking {α : Type} {p : ArchiveProg B α} (h : p.Moves (Between Eq)) (w : World B) :
    Ensures alone (fun _ t => t.disk = w.disk) (fun _ _ => True) p w := by
  induction p generalizing w with
  | pure a => exact fun t ht => congrArg World.disk ht.symm
  | throw e => exact fun _ _ => trivial
  | act op eff next ih =>
    rintro t rfl c -
    obtain ⟨hdisk, hnext⟩ := h c w
    refine ⟨trivial, (ih c w hnext _).mono (fun _ u hu => ?_) fun _ _ h => h⟩
    rw [hu]
    exact hdisk.symm

theorem ensures_look {α : Type} {f : DataDir B → α} (w : World B) :
    Ensures alone (fun a t => t.disk = w.disk ∧ a = f w.disk) (fun _ _ => True)
      (look fun d => .ok (f d)) w := by
  rintro t rfl c -
  refine ⟨trivial, ?_⟩
  cases c with
  | fault e => exact fun _ _ => trivial
  | _ =>
    rintro t rfl
    exact ⟨rfl, rfl⟩

theorem ensures_inventoryDates (C : Contents B) (parse : String → Option ℤ)
    (checkRemote enabled : Bool) (dates : List String) (w : World B) :
    Ensures alone (fun entries t => t.disk = w.disk ∧
        entries.map DateEntry.inventory = dates.map (inventoryDate C parse w.disk))
      (fun _ _ => True) (inventoryDates C parse checkRemote enabled dates) w := by
  induction dates generalizing w with
  | nil =>
    rintro t rfl
    exact ⟨rfl, rfl⟩
  | cons date dates ih =>
    unfold inventoryDates
    refine (ensures_look w).bind fun i t ht => ?_
    obtain ⟨hdisk, rfl⟩ := ht
    refine (ensures_asking (moves_statusesFor (fun _ => rfl) _ _ _) t).bind fun statuses u hu => ?_
    refine (ih u).bind fun entries v hv => ?_
    rintro x rfl
    rw [hv.1, hu, hdisk]
    refine ⟨rfl, ?_⟩
    rw [List.map_cons, List.map_cons, hv.2, hu, hdisk]

/-- **The inventory** says what the local files said. -/
theorem ensures_inventory (m : Migrator B) (checkRemote : Bool) (w : World B) :
    Ensures alone (fun i _ => i.dates.map DateEntry.inventory =
        (discoverCompletedDates m.isDate m.today w.disk).map
          (inventoryDate m.contents m.intOfText w.disk))
      (fun _ _ => True) (inventory m checkRemote) w := by
  unfold inventory
  refine (ensures_look w).bind fun dates t ht => ?_
  obtain ⟨hdisk, rfl⟩ := ht
  refine (ensures_inventoryDates _ _ _ _ _ t).bind fun entries u hu => ?_
  refine (ensures_trivial _ u).bind fun static v _ => ?_
  refine (ensures_trivial _ v).bind fun statuses x _ => ?_
  rintro y rfl
  have hentries := hu.2
  rw [hdisk] at hentries
  exact hentries

theorem ensures_applyDates (m : Migrator B) (entries : List DateEntry) (w : World B) :
    Ensures alone (fun r _ => r.map DateEntry.inventory = entries.map DateEntry.inventory)
      (fun _ _ => True) (applyDates m entries) w := by
  induction entries generalizing w with
  | nil => exact fun _ _ => rfl
  | cons e entries ih =>
    unfold applyDates
    dsimp only
    split
    · refine (ih w).bind fun rest t ht => ?_
      rintro u rfl
      rw [List.map_cons, List.map_cons, ht]
    · refine (ensures_trivial _ w).bind fun copied t _ => ?_
      refine (ensures_trivial _ t).bind fun verified u _ => (ih u).bind fun rest v hv => ?_
      rintro x rfl
      rw [List.map_cons, List.map_cons, hv]

theorem ensures_applyCopies (m : Migrator B) (i : Inventory) (w : World B) :
    Ensures alone (fun r _ => r.dates.map DateEntry.inventory = i.dates.map DateEntry.inventory)
      (fun _ _ => True) (applyCopies m i) w := by
  unfold applyCopies
  refine (ensures_trivial _ w).bind fun _ t _ => (ensures_applyDates m i.dates t).bind
    fun dates u hu => (ensures_trivial _ u).bind fun static v _ => ?_
  rintro x rfl
  exact hu

/-- What is left of a migration: either it has not written its inventory, and nothing but the legacy
receipts is changed, or it is done, and its inventory is in place. -/
theorem migrate_after (m : Migrator B) (checkRemote : Bool) (cs : List Reply) (d : DataDir B) :
    ∃ p w, (migrate m checkRemote).after cs ⟨d, []⟩ = (p, w) ∧
      ((Frame d w.disk ∧ ∀ i, p ≠ .pure i) ∨
        ∃ i, p = .pure i ∧ (∀ path, path ≠ legacyInventoryPath →
            (∀ name, path ≠ legacyReceiptPath name) → w.disk.lookup path = d.lookup path) ∧
          readJson m.contents w.disk legacyInventoryPath (.dict []) = i.toDoc ∧
          i.dates.map DateEntry.inventory = (discoverCompletedDates m.isDate m.today d).map
            (inventoryDate m.contents m.intOfText d)) := by
  have hmoves : ((inventory m checkRemote).bind (applyCopies m)).Moves (Between Frame) :=
    (moves_inventory m checkRemote).bind (moves_applyCopies m)
  have hpost : Ensures alone (fun r _ => r.dates.map DateEntry.inventory =
      (discoverCompletedDates m.isDate m.today d).map (inventoryDate m.contents m.intOfText d))
      (fun _ _ => True) ((inventory m checkRemote).bind (applyCopies m)) ⟨d, []⟩ := by
    refine (ensures_inventory m checkRemote _).bind fun i t hi => ?_
    exact (ensures_applyCopies m i t).mono (fun r _ hr => hr.trans hi) fun _ _ h => h
  have hframe : ∀ ds, Frame d
      (((inventory m checkRemote).bind (applyCopies m)).after ds ⟨d, []⟩).2.disk := fun ds =>
    Prog.Moves.after (R := Between Frame) (fun w => Frame.refl w.disk)
      (fun _ _ _ h h' => Frame.trans h h') hmoves ds ⟨d, []⟩
  have hassoc : migrate m checkRemote =
      ((inventory m checkRemote).bind (applyCopies m)).bind fun r =>
        (change fun d => putFile d legacyInventoryPath (m.contents.dumps r.toDoc)).bind fun _ =>
          .pure r := (Prog.bind_assoc _ _ _).symm
  rw [hassoc]
  rcases Prog.after_bind ((inventory m checkRemote).bind (applyCopies m)) (fun r =>
      (change fun d => putFile d legacyInventoryPath (m.contents.dumps r.toDoc)).bind fun _ =>
        .pure r) cs ⟨d, []⟩ with ⟨q, t, hq, h, hne⟩ | ⟨ds, es, r, t, -, hr, h⟩
  · refine ⟨_, t, h, Or.inl ⟨?_, fun i hi => ?_⟩⟩
    · have := hframe cs
      rwa [hq] at this
    · cases q with
      | pure a => exact hne a rfl
      | throw e => cases hi
      | act op eff next => cases hi
  · have hframe' := hframe ds
    have hpost' := hpost.after (fun _ _ _ => trivial) ds
    rw [hr] at hframe' hpost'
    rcases change_after (fun d => putFile d legacyInventoryPath (m.contents.dumps r.toDoc))
      (fun _ => .pure r) es t with ⟨p, hp, hne⟩ | ⟨es', hes⟩
    · exact ⟨p, t, h.trans hp, Or.inl ⟨hframe', hne⟩⟩
    · rw [Prog.after_pure] at hes
      refine ⟨_, _, h.trans hes, Or.inr ⟨r, rfl, fun path hpath hname => ?_, ?_,
        hpost' _ rfl⟩⟩
      · rw [lookup_putFile hpath]
        exact hframe' path hname
      · exact readJson_putFile _ _ _ _ _

/-! ### Runs -/

/-- **A run of migrations** of a library, on days after `date`: from which directory, on which
directory the last migration that got to its end was started, and to which directory. -/
inductive Run (L : Library B) (date : String) :
    DataDir B → Option (DataDir B) → DataDir B → Prop
  | start (d : DataDir B) : Run L date d none d
  | stopped {d₀ d : DataDir B} {last : Option (DataDir B)} (run : Run L date d₀ last d)
      (m : Migrator B) (library : m.toLibrary = L) (today : date < m.today) (checkRemote : Bool)
      (cs : List Reply) {p : ArchiveProg B Inventory} {w : World B}
      (after : (migrate m checkRemote).after cs ⟨d, []⟩ = (p, w)) (open_ : ∀ i, p ≠ .pure i) :
      Run L date d₀ last w.disk
  | done {d₀ d : DataDir B} {last : Option (DataDir B)} (run : Run L date d₀ last d)
      (m : Migrator B) (library : m.toLibrary = L) (today : date < m.today) (checkRemote : Bool)
      (cs : List Reply) {i : Inventory} {w : World B}
      (after : (migrate m checkRemote).after cs ⟨d, []⟩ = (.pure i, w)) :
      Run L date d₀ (some d) w.disk

/-- Everything but the inventory and the legacy receipts is as it was. -/
def Untouched (d e : DataDir B) : Prop :=
  ∀ path, path ≠ legacyInventoryPath → (∀ name, path ≠ legacyReceiptPath name) →
    e.lookup path = d.lookup path

theorem Untouched.trans {d e f : DataDir B} (h : Untouched d e) (h' : Untouched e f) :
    Untouched d f := fun path hp hn => (h' path hp hn).trans (h path hp hn)

/-- What the inventory file says after a run. -/
def InventorySays (L : Library B) (date : String) (d₀ : DataDir B) (d : DataDir B) :
    Option (DataDir B) → Prop
  | none => d.lookup legacyInventoryPath = d₀.lookup legacyInventoryPath
  | some s => Untouched d₀ s ∧ ∃ today, date < today ∧
      handledLegacy L.contents d = .ok (handledDates
        ((discoverCompletedDates L.isDate today s).map
          (inventoryDate L.contents L.intOfText s)))

/-- The inventory is read from its own file. -/
theorem handledLegacy_congr (C : Contents B) {d e : DataDir B}
    (h : d.lookup legacyInventoryPath = e.lookup legacyInventoryPath) :
    handledLegacy C d = handledLegacy C e := by
  unfold handledLegacy
  rw [readJson_congr C _ h]

theorem frame_untouched {d e : DataDir B} (h : Frame d e) :
    Untouched d e ∧ e.lookup legacyInventoryPath = d.lookup legacyInventoryPath := by
  refine ⟨fun path _ hn => h path hn, h _ fun name hname => ?_⟩
  unfold legacyInventoryPath legacyReceiptPath at hname
  have := congrArg List.length hname
  simp at this

/-- **After a run**, nothing but the inventory and the legacy receipts is changed, and the inventory
is that of the last migration that got to its end. -/
theorem Run.spec {L : Library B} {date : String} {d₀ d : DataDir B} {last : Option (DataDir B)}
    (h : Run L date d₀ last d) : Untouched d₀ d ∧ InventorySays L date d₀ d last := by
  induction h with
  | start => exact ⟨fun _ _ _ => rfl, rfl⟩
  | @stopped d last run m library today checkRemote cs p w after open_ ih =>
    obtain ⟨huntouched, hsays⟩ := ih
    obtain ⟨p', w', h, hstep⟩ := migrate_after m checkRemote cs d
    obtain ⟨rfl, rfl⟩ := Prod.mk.inj (after.symm.trans h)
    rcases hstep with ⟨hframe, -⟩ | ⟨i, hi, -⟩
    · obtain ⟨hsame, hinventory⟩ := frame_untouched hframe
      refine ⟨huntouched.trans hsame, ?_⟩
      cases last with
      | none => exact hinventory.trans hsays
      | some s =>
        obtain ⟨hs, today', htoday, hhandled⟩ := hsays
        exact ⟨hs, today', htoday, (handledLegacy_congr _ hinventory).trans hhandled⟩
    · exact absurd hi (open_ i)
  | @done d last run m library today checkRemote cs i w after ih =>
    obtain ⟨huntouched, -⟩ := ih
    obtain ⟨p', w', h, hstep⟩ := migrate_after m checkRemote cs d
    obtain ⟨rfl, rfl⟩ := Prod.mk.inj (after.symm.trans h)
    rcases hstep with ⟨-, hopen⟩ | ⟨i', -, hsame, hjson, hdates⟩
    · exact absurd rfl (hopen i)
    · subst library
      refine ⟨huntouched.trans hsame, huntouched, m.today, today, ?_⟩
      rw [handledLegacy_of_inventory hjson, hdates]

/-! ### The work list -/

theorem startsWith_append (start text : String) : startsWith start (start ++ text) = true := by
  unfold startsWith
  rw [String.toList_append]
  exact List.isPrefixOf_iff_prefix.mpr (List.prefix_append _ _)

theorem removePrefix_append (start text : String) : removePrefix start (start ++ text) = text := by
  unfold removePrefix
  rw [if_pos (startsWith_append start text), String.toList_append, List.drop_left,
    String.ofList_toList]

/-- A date with poll journals is a completed date. -/
theorem mem_discover {isDate : String → Bool} {today date : String} {d : DataDir B}
    (hjournals : hasJournals d date = true) (hdate : isDate date = true) (htoday : date < today) :
    date ∈ discoverCompletedDates isDate today d := by
  have hfile : isFile d (pollJournalPath .vehiclepositions date) = true :=
    List.all_eq_true.mp hjournals _ (by decide)
  have hhas := has_of_isFile hfile
  have hfeed : Has d (["metadata", "polls"] ++ [Feed.vehiclepositions.name]) :=
    hhas.of_stem ⟨[dateDir date, "polls.jsonl"], rfl⟩
  have hdir : Has d (["metadata", "polls", Feed.vehiclepositions.name] ++ [dateDir date]) :=
    hhas.of_stem ⟨["polls.jsonl"], rfl⟩
  unfold discoverCompletedDates
  rw [mem_sortedSet, List.mem_filter, List.mem_flatMap]
  refine ⟨⟨["metadata", "polls"], ?_, ?_⟩, by rw [hdate, decide_eq_true htoday]; rfl⟩
  · rw [List.mem_filter]
    exact ⟨by decide, existsAt_of_below hfeed⟩
  · unfold datesBelow
    rw [List.mem_flatMap]
    refine ⟨_, mem_iterdir.mpr hfeed, List.mem_map.mpr ⟨dateDir date, ?_, ?_⟩⟩
    · rw [List.mem_filter]
      exact ⟨mem_iterdir.mpr hdir, startsWith_append _ _⟩
    · exact removePrefix_append _ _

/-- The entries a run leaves alone. -/
theorem Untouched.has_iff {d e : DataDir B} (h : Untouched d e) {path : Path}
    (hpath : ∀ q, path <+: q → q ≠ legacyInventoryPath ∧ ∀ name, q ≠ legacyReceiptPath name) :
    Has e path ↔ Has d path := by
  have hmem : ∀ q, path <+: q → (q ∈ e ↔ q ∈ d) := by
    intro q hq
    obtain ⟨hinventory, hreceipt⟩ := hpath q hq
    rw [← AList.lookup_isSome, ← AList.lookup_isSome, h q hinventory hreceipt]
  constructor
  · rintro ⟨q, hmemq, hq⟩
    exact ⟨q, (hmem q hq).mp hmemq, hq⟩
  · rintro ⟨q, hmemq, hq⟩
    exact ⟨q, (hmem q hq).mpr hmemq, hq⟩

theorem mem_confirmedDates {C : Contents B} {repoId date : String} {d : DataDir B} :
    date ∈ confirmedDates C repoId d ↔
      (∃ name, Has d ["backup_receipts", name] ∧ startsWith "date=" name = true ∧
        endsWith ".json" name = true ∧ removeSuffix ".json" (removePrefix "date=" name) = date) ∧
      confirms repoId date (readJson C d (receiptPath date) (.dict [])) = true := by
  have hreceipts : date ∈ receiptDates d ↔
      ∃ name, Has d ["backup_receipts", name] ∧ startsWith "date=" name = true ∧
        endsWith ".json" name = true ∧
        removeSuffix ".json" (removePrefix "date=" name) = date := by
    unfold receiptDates
    rw [List.mem_map]
    constructor
    · rintro ⟨name, hname, rfl⟩
      rw [List.mem_filter, Bool.and_eq_true, mem_iterdir] at hname
      exact ⟨name, hname.1, hname.2.1, hname.2.2, rfl⟩
    · rintro ⟨name, hhas, hstart, hend, rfl⟩
      refine ⟨name, ?_, rfl⟩
      rw [List.mem_filter, Bool.and_eq_true, mem_iterdir]
      exact ⟨hhas, hstart, hend⟩
  unfold confirmedDates
  split
  · rw [List.mem_filter, hreceipts]
  · next hexists =>
    refine iff_of_false List.not_mem_nil fun h => hexists ?_
    obtain ⟨⟨name, hhas, -⟩, -⟩ := h
    have hbelow : Has d (["backup_receipts"] ++ [name]) := hhas
    exact existsAt_of_below hbelow

/-- **A run confirms nothing.** -/
theorem Untouched.confirmedDates_iff {C : Contents B} {repoId : String} {d e : DataDir B}
    (h : Untouched d e) (date : String) :
    date ∈ confirmedDates C repoId e ↔ date ∈ confirmedDates C repoId d := by
  have hreceipt : e.lookup (receiptPath date) = d.lookup (receiptPath date) := by
    refine h _ (fun heq => ?_) fun name heq => ?_
    · unfold receiptPath legacyInventoryPath at heq
      simp at heq
    · unfold receiptPath legacyReceiptPath at heq
      have := congrArg List.length heq
      simp at this
  have hhas : ∀ name, startsWith "date=" name = true →
      (Has e ["backup_receipts", name] ↔ Has d ["backup_receipts", name]) := by
    intro name hname
    refine h.has_iff ?_
    rintro q ⟨tail, rfl⟩
    refine ⟨fun heq => ?_, fun file heq => ?_⟩
    · unfold legacyInventoryPath at heq
      simp at heq
    · unfold legacyReceiptPath at heq
      obtain ⟨-, heq⟩ := List.cons.inj heq
      obtain ⟨rfl, -⟩ := List.cons.inj heq
      exact absurd hname (by decide)
  rw [mem_confirmedDates, mem_confirmedDates, readJson_congr C _ hreceipt]
  refine and_congr_left fun _ => exists_congr fun name => ?_
  constructor
  · rintro ⟨hname, hstart, hrest⟩
    exact ⟨(hhas name hstart).mp hname, hstart, hrest⟩
  · rintro ⟨hname, hstart, hrest⟩
    exact ⟨(hhas name hstart).mpr hname, hstart, hrest⟩

/-- A date the inventory of a directory does not take off the work list: it is `v2_complete`, or one
of its files could not be inventoried. -/
def Spared (L : Library B) (d : DataDir B) (date : String) : Prop :=
  isV2Complete L.contents L.intOfText d date = true ∨
    ∃ f ∈ dateFiles d date, ∃ e, inventoryFile L.contents d f.1 f.2 = .error e

theorem inventoryDate_complete {L : Library B} {d : DataDir B} {date : String} :
    (inventoryDate L.contents L.intOfText d date).inventoryComplete =
      ((dateFiles d date).filterMap fun f =>
        match inventoryFile L.contents d f.1 f.2 with
        | .ok _ => none
        | .error e => some (inventoryError f.1 e)).isEmpty := rfl

theorem legacyHandled_iff {L : Library B} {d : DataDir B} {date : String} :
    (inventoryDate L.contents L.intOfText d date).legacyHandled = true ↔ ¬ Spared L d date := by
  have hcomplete : (inventoryDate L.contents L.intOfText d date).inventoryComplete = true ↔
      ¬ ∃ f ∈ dateFiles d date, ∃ e, inventoryFile L.contents d f.1 f.2 = .error e := by
    rw [inventoryDate_complete, List.isEmpty_iff, List.filterMap_eq_nil_iff]
    constructor
    · rintro hnone ⟨f, hf, e, he⟩
      have := hnone f hf
      rw [he] at this
      cases this
    · intro hnone f hf
      cases hfile : inventoryFile L.contents d f.1 f.2 with
      | ok _ => rfl
      | error e => exact absurd ⟨f, hf, e, hfile⟩ hnone
  have hclass : (inventoryDate L.contents L.intOfText d date).classification ≠ .v2Complete ↔
      isV2Complete L.contents L.intOfText d date ≠ true := by
    show (if _ then _ else _) ≠ _ ↔ _
    by_cases hv2 : isV2Complete L.contents L.intOfText d date = true
    · rw [if_pos hv2]
      simp [hv2]
    · rw [if_neg hv2]
      refine iff_of_true ?_ hv2
      split
      · exact Classification.noConfusion
      · exact Classification.noConfusion
  unfold DateInventory.legacyHandled Spared
  rw [Bool.and_eq_true, decide_eq_true_eq, hcomplete, hclass, not_or]

theorem mem_handledDates {L : Library B} {d : DataDir B} {dates : List String} {date : String} :
    date ∈ handledDates (dates.map (inventoryDate L.contents L.intOfText d)) ↔
      date ∈ dates ∧ ¬ Spared L d date := by
  rw [← legacyHandled_iff]
  unfold handledDates
  simp only [List.mem_map, List.mem_filter]
  constructor
  · rintro ⟨_, ⟨⟨date', hdate, rfl⟩, hhandled⟩, rfl⟩
    exact ⟨hdate, hhandled⟩
  · rintro ⟨hdate, hhandled⟩
    exact ⟨_, ⟨⟨date, hdate, rfl⟩, hhandled⟩, rfl⟩

/-- The date is still to be backed up. -/
def Pending (L : Library B) (today repoId : String) (d : DataDir B) (date : String) : Prop :=
  ∃ dates, pendingDates L.contents L.isDate today repoId d = .ok dates ∧ date ∈ dates

/-- The date is still to be backed up, and the same dates are confirmed. -/
def StillPending (L : Library B) (today repoId : String) (d₀ d : DataDir B) (date : String) :
    Prop :=
  Pending L today repoId d date ∧ ∀ other, other ∈ confirmedDates L.contents repoId d ↔
    other ∈ confirmedDates L.contents repoId d₀

theorem pending_of_handled {L : Library B} {today repoId : String} {d : DataDir B} {date : String}
    {handled : List String} (h : handledLegacy L.contents d = .ok handled) :
    Pending L today repoId d date ↔ date ∈ discoverCompletedDates L.isDate today d ∧
      date ∉ confirmedDates L.contents repoId d ∧ date ∉ handled := by
  have hdates : pendingDates L.contents L.isDate today repoId d =
      .ok ((discoverCompletedDates L.isDate today d).filter fun date =>
        decide (date ∉ confirmedDates L.contents repoId d) && decide (date ∉ handled)) := by
    unfold pendingDates
    rw [h]
    rfl
  unfold Pending
  rw [hdates]
  constructor
  · rintro ⟨dates, ⟨⟩, hdate⟩
    rw [List.mem_filter, Bool.and_eq_true, decide_eq_true_eq, decide_eq_true_eq] at hdate
    exact hdate
  · intro hdate
    refine ⟨_, rfl, ?_⟩
    rw [List.mem_filter, Bool.and_eq_true, decide_eq_true_eq, decide_eq_true_eq]
    exact hdate

/-- The journals of a date are left alone. -/
theorem Untouched.hasJournals {d e : DataDir B} (h : Untouched d e) {date : String}
    (hjournals : hasJournals d date = true) : hasJournals e date = true := by
  refine List.all_eq_true.mpr fun feed hfeed => ?_
  have hfile := List.all_eq_true.mp hjournals feed hfeed
  have hlookup : e.lookup (pollJournalPath feed date) = d.lookup (pollJournalPath feed date) := by
    refine h _ (fun heq => ?_) fun name heq => ?_
    · have := congrArg List.length heq
      simp [pollJournalPath, legacyInventoryPath] at this
    · have := congrArg List.length heq
      simp [pollJournalPath, legacyReceiptPath] at this
  unfold isFile at hfile ⊢
  rwa [fileAt_congr hlookup]

/-- **A pending date with poll journals stays pending** in a run of migrations exactly when the last
of them that got to its end spared it; what is confirmed does not change. -/
theorem stillPending_iff {L : Library B} {today repoId date : String} {d₀ d : DataDir B}
    {last : Option (DataDir B)} (hjournals : hasJournals d₀ date = true)
    (hpending : Pending L today repoId d₀ date) (htoday : date < today)
    (hrun : Run L date d₀ last d) :
    StillPending L today repoId d₀ d date ↔ ∀ s, last = some s → Spared L s date := by
  obtain ⟨huntouched, hsays⟩ := hrun.spec
  obtain ⟨dates, hdates, hmem⟩ := hpending
  obtain ⟨handled, hhandled, -⟩ := bind_eq_ok.mp hdates
  obtain ⟨hdiscovered, hunconfirmed, hnot⟩ :=
    (pending_of_handled hhandled).mp ⟨dates, hdates, hmem⟩
  have hdate : L.isDate date = true := by
    unfold discoverCompletedDates at hdiscovered
    rw [mem_sortedSet, List.mem_filter, Bool.and_eq_true] at hdiscovered
    exact hdiscovered.2.1
  have hconfirmed : ∀ other, other ∈ confirmedDates L.contents repoId d ↔
      other ∈ confirmedDates L.contents repoId d₀ := huntouched.confirmedDates_iff
  have hdiscovered' := mem_discover (huntouched.hasJournals hjournals) hdate htoday
  have hunconfirmed' : date ∉ confirmedDates L.contents repoId d :=
    (hconfirmed date).not.mpr hunconfirmed
  unfold StillPending
  rw [and_iff_left hconfirmed]
  cases last with
  | none =>
    have hhandled' : handledLegacy L.contents d = .ok handled :=
      (handledLegacy_congr _ hsays).trans hhandled
    rw [pending_of_handled hhandled']
    exact iff_of_true ⟨hdiscovered', hunconfirmed', hnot⟩ fun s hs => by cases hs
  | some s =>
    obtain ⟨hs, today', htoday', hhandled'⟩ := hsays
    have hcollected := mem_discover (hs.hasJournals hjournals) hdate htoday'
    rw [pending_of_handled hhandled', mem_handledDates]
    constructor
    · rintro ⟨-, -, hspared⟩ s' hs'
      obtain rfl := Option.some.inj hs'
      by_contra hnot'
      exact hspared ⟨hcollected, hnot'⟩
    · intro hspared
      refine ⟨hdiscovered', hunconfirmed', fun h => ?_⟩
      exact h.2 (hspared s rfl)

/-! ### A collected date -/

/-- They are written as they are. -/
theorem sample_loads_dumps (document : Doc) : some (id document) = some document := rfl

/-- Files that are JSON documents. -/
def sampleLibrary : Library Doc where
  contents := {
    size := fun _ => 0
    sha256 := fun _ => ""
    loads := some
    dumps := id
    loads_dumps := sample_loads_dumps
    scanRawLog := fun _ => .ok (true, 1)
    parquetRowCount := fun _ => .ok 1
    appendJsonl := fun _ v => v
    validateGtfsZip := fun _ => .ok () }
  intOfText _ := none
  isDate _ := true

/-- A migrator without credentials. -/
def sampleMigrator : Migrator Doc where
  toLibrary := sampleLibrary
  enabled := false
  repoId := ""
  today := "2026-01-04"
  now := "2026-01-04T00:00:00+00:00"

/-- The journals of the three feeds of a date. -/
def collected (readable : Bool) : DataDir Doc :=
  feedNames.foldl (fun d feed => d.insert (pollJournalPath feed "2026-01-02")
    { target := some (.file { content := .null, readable := readable }) }) ∅

/-- What a migration leaves behind. -/
def migrated (d : DataDir Doc) : DataDir Doc :=
  ((migrate sampleMigrator true).runWith .done ⟨d, []⟩).2.disk

/-- A migration that gets to its end. -/
theorem run_migrated {d : DataDir Doc}
    (h : ((migrate sampleMigrator true).runWith .done ⟨d, []⟩).1.isOk = true) :
    Run sampleLibrary "2026-01-02" d (some d) (migrated d) := by
  obtain ⟨n, q, hafter, hq⟩ :=
    Prog.exists_after_runWith .done (migrate sampleMigrator true) ⟨d, []⟩
  cases hrun : ((migrate sampleMigrator true).runWith .done ⟨d, []⟩).1 with
  | error e =>
    rw [hrun] at h
    cases h
  | ok i =>
    rw [hrun] at hq
    subst hq
    exact Run.done (Run.start d) sampleMigrator rfl (by decide) true _ hafter

theorem pending_iff_of_toOption {L : Library B} {today repoId date : String} {d : DataDir B}
    {dates : List String}
    (h : (pendingDates L.contents L.isDate today repoId d).toOption = some dates) :
    Pending L today repoId d date ↔ date ∈ dates := by
  unfold Pending
  cases hdates : pendingDates L.contents L.isDate today repoId d with
  | error e =>
    rw [hdates] at h
    cases h
  | ok l =>
    rw [hdates] at h
    obtain rfl := Option.some.inj h
    constructor
    · rintro ⟨_, ⟨⟩, hmem⟩
      exact hmem
    · exact fun hmem => ⟨l, rfl, hmem⟩

/-- **A collected date without a manifest** is taken off the work list. -/
theorem not_stillPending :
    hasJournals (collected true) "2026-01-02" = true ∧
      Pending sampleLibrary "2026-01-04" "owner/repo" (collected true) "2026-01-02" ∧
      Run sampleLibrary "2026-01-02" (collected true) (some (collected true))
        (migrated (collected true)) ∧
      ¬ StillPending sampleLibrary "2026-01-04" "owner/repo" (collected true)
        (migrated (collected true)) "2026-01-02" := by
  have hbefore : (pendingDates sampleLibrary.contents sampleLibrary.isDate "2026-01-04"
      "owner/repo" (collected true)).toOption = some ["2026-01-02"] := by decide +kernel
  have hafter : (pendingDates sampleLibrary.contents sampleLibrary.isDate "2026-01-04"
      "owner/repo" (migrated (collected true))).toOption = some [] := by decide +kernel
  refine ⟨by decide +kernel, (pending_iff_of_toOption hbefore).mpr (List.mem_singleton_self _),
    run_migrated (by decide +kernel), fun h => ?_⟩
  have hmem := (pending_iff_of_toOption hafter).mp h.1
  cases hmem

/-- Journals that cannot be read: the date stays. -/
theorem stillPending_unreadable :
    StillPending sampleLibrary "2026-01-04" "owner/repo" (collected false)
      (migrated (collected false)) "2026-01-02" := by
  have hbefore : (pendingDates sampleLibrary.contents sampleLibrary.isDate "2026-01-04"
      "owner/repo" (collected false)).toOption = some ["2026-01-02"] := by decide +kernel
  have hunreadable : ((dateFiles (collected false) "2026-01-02").any fun f =>
      !(inventoryFile sampleLibrary.contents (collected false) f.1 f.2).isOk) = true := by
    decide +kernel
  refine (stillPending_iff (by decide +kernel)
    ((pending_iff_of_toOption hbefore).mpr (List.mem_singleton_self _)) (by decide)
    (run_migrated (by decide +kernel))).mpr fun s hs => Or.inr ?_
  obtain rfl := Option.some.inj hs
  obtain ⟨f, hf, herror⟩ := List.any_eq_true.mp hunreadable
  refine ⟨f, hf, ?_⟩
  cases hfile : inventoryFile sampleLibrary.contents (collected false) f.1 f.2 with
  | error e => exact ⟨e, rfl⟩
  | ok i =>
    rw [hfile] at herror
    cases herror

end BkkCollector.Cli.LegacyHandled
