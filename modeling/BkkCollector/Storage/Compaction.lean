import BkkCollector.Storage.ParquetCompact
import BkkCollector.Storage.PartitionRules

/-! # Compacting one partition

What `compactPartition` does to a partition, whatever the collector does there meanwhile: it keeps
the rows at every step, and when it returns an output its marker is gone and so are the files that
the output replaces. Two things it does not check itself, and they are assumptions of this module: a
file it removes is not the output of a commit marker, and where the marker of an earlier call cannot
be read, that call has not left an output beside a source that still has rows. -/

namespace BkkCollector.Storage.Compaction

open BkkCollector.Logic.MergeStore BkkCollector.Logic.Program BkkCollector.Python.Objects
open BkkCollector.Config
open BkkCollector.Storage.AtomicIo BkkCollector.Storage.ParquetStore
open BkkCollector.Storage.ParquetCompact
open BkkCollector.Storage.PartitionStore BkkCollector.Storage.PartitionInvariant
open BkkCollector.Storage.PartitionRules

/-! ### Merging tables -/

theorem subset_foldl_unify {schemas : List (List String)} {unified : List String} {c : String}
    (h : c ∈ unified) :
    c ∈ schemas.foldl (fun unified s => unified ++ s.filter fun c => c ∉ unified) unified := by
  induction schemas generalizing unified with
  | nil => exact h
  | cons s schemas ih => exact ih (List.mem_append_left _ h)

theorem mem_foldl_unify {schemas : List (List String)} {unified : List String} {c : String}
    {s : List String} (hs : s ∈ schemas) (hc : c ∈ s) :
    c ∈ schemas.foldl (fun unified s => unified ++ s.filter fun c => c ∉ unified) unified := by
  induction schemas generalizing unified with
  | nil => cases hs
  | cons s' schemas ih =>
    rcases List.mem_cons.mp hs with rfl | hs
    · rw [List.foldl_cons]
      refine subset_foldl_unify ?_
      by_cases hmem : c ∈ unified
      · exact List.mem_append_left _ hmem
      · exact List.mem_append_right _ (List.mem_filter.mpr ⟨hc, by simpa using hmem⟩)
    · exact ih hs

/-- The unified schema has the columns of every schema. -/
theorem subset_of_unifySchemas {schemas : List (List String)} {schema : List String}
    (h : unifySchemas schemas = .ok schema) {s : List String} (hs : s ∈ schemas) : s ⊆ schema := by
  cases schemas with
  | nil => cases h
  | cons first schemas =>
    cases h
    intro c hc
    rcases List.mem_cons.mp hs with rfl | hs
    · exact subset_foldl_unify hc
    · exact mem_foldl_unify hs hc

/-- The rows of the merged file. -/
theorem contents_merged {schema : List String} {files : List ParquetFile}
    (halign : ∀ file ∈ files, Aligned file) (hschema : ∀ file ∈ files, file.schema ⊆ schema) :
    contents ⟨schema, files.flatMap (alignTable schema)⟩ = (files.map contents).sum := by
  induction files with
  | nil => rfl
  | cons file files ih =>
    rw [List.map_cons, List.sum_cons, ← ih (fun f hf => halign f (List.mem_cons_of_mem _ hf))
      fun f hf => hschema f (List.mem_cons_of_mem _ hf)]
    simp only [contents, List.flatMap_cons, List.map_append, ← Multiset.coe_add, alignTable,
      List.map_map]
    congr 2
    exact List.map_congr_left fun row hrow => get_project_of_aligned
      (halign file (List.mem_cons_self ..)) (hschema file (List.mem_cons_self ..)) hrow

theorem aligned_merged (schema : List String) (files : List ParquetFile) :
    Aligned ⟨schema, files.flatMap (alignTable schema)⟩ := by
  intro row hrow c hc
  obtain ⟨file, -, hrow⟩ := List.mem_flatMap.mp hrow
  obtain ⟨r, -, rfl⟩ := List.mem_map.mp hrow
  exact (get_project _ r c).trans (if_neg hc)

/-! ### Invariant -/

/-- The invariant of a partition, of one the spool writes to or of any other. -/
structure Kept (spooled : Prop) (digest : List String → String) (feed : Feed)
    (base : Multiset (String → Value)) (p : Partition) : Prop where
  core : Core feed base p
  spooled : spooled → Spooled digest p

variable {spooled : Prop} {digest : List String → String} {feed : Feed}
  {base : Multiset (String → Value)} {C : Contract Partition Op Choice} {quiet : Partition → Prop}
  {s : Partition}

/-- Where a compaction is safe: `quiet` is what the look at the spool directory is worth, no file of
a commit marker is removed, and a marker that cannot be read hides no rows. -/
structure Safe (spooled : Prop) (digest : List String → String) (feed : Feed)
    (base : Multiset (String → Value)) (C : Contract Partition Op Choice)
    (quiet : Partition → Prop) : Prop
    extends Party C (Kept spooled digest feed base) True MaintenanceRely MaintenanceStep where
  start : ∀ p, Kept spooled digest feed base p → p.partsDirectory = true → spoolEmpty p = true →
    quiet p
  directory : ∀ p, Kept spooled digest feed base p → quiet p → p.partsDirectory = true
  stays : ∀ p q, Kept spooled digest feed base p → MaintenanceRely p q → C.rely p q →
    quiet p → quiet q
  step : ∀ p q, MaintenanceStep p q → quiet p → quiet q
  unlink : ∀ n p, Kept spooled digest feed base p → quiet p → C.admits (.unlink (.part n)) .ok p →
    ∀ d m, p.commits.lookup d = some m → m.output ≠ n
  marker : ∀ n p t, Kept spooled digest feed base p → C.admits (.read .transaction) (.fault n) p →
    p.transaction = some t → Spent p t

/-! ### What stays under a compaction -/

section Stable

variable {p q : Partition} {t : Transaction}

theorem mem_parts_of_rely (hr : MaintenanceRely p q) {n : PartName} (hn : n ∈ p.parts) :
    n ∈ q.parts := by
  obtain ⟨file, hfile⟩ := Option.isSome_iff_exists.mp (AList.lookup_isSome.mpr hn)
  exact AList.lookup_isSome.mp (by rw [hr.parts n file hfile]; rfl)

theorem partRows_of_rely (hr : MaintenanceRely p q) {n : PartName} (hn : n ∈ p.parts) :
    partRows q n = partRows p n := by
  obtain ⟨file, hfile⟩ := Option.isSome_iff_exists.mp (AList.lookup_isSome.mpr hn)
  rw [partRows_of_lookup hfile, partRows_of_lookup (hr.parts n file hfile)]

/-- A compacted file does not come from the collector. -/
theorem compacted_of_rely (hr : MaintenanceRely p q) {d : String}
    (hn : PartName.compacted d ∈ q.parts) : PartName.compacted d ∈ p.parts := by
  by_contra hnot
  obtain ⟨⟨l, d', hbatch⟩, -⟩ := hr.fresh _ hn hnot
  cases hbatch

theorem lookup_output_of_rely (hr : MaintenanceRely p q) {d : String} :
    q.parts.lookup (.compacted d) = p.parts.lookup (.compacted d) := by
  cases hp : p.parts.lookup (.compacted d) with
  | some file => exact hr.parts _ file hp
  | none =>
    rw [AList.lookup_eq_none] at hp ⊢
    exact fun hq => hp (compacted_of_rely hr hq)

/-- A source does not come back. -/
theorem source_of_rely (hr : MaintenanceRely p q) (ht : p.transaction = some t) {n : PartName}
    (hn : n ∈ t.sources) (hq : n ∈ q.parts) : n ∈ p.parts := by
  by_contra hnot
  exact (hr.fresh n hq hnot).2 t ht hn

theorem valid_iff_of_rely (hr : MaintenanceRely p q) {d : String} (hd : t.output = .compacted d)
    (k : ℕ) : Valid q t.output k ↔ Valid p t.output k := by
  rw [Valid, Valid, hd, lookup_output_of_rely hr]

theorem spent_of_rely (hr : MaintenanceRely p q) (ht : p.transaction = some t) {d : String}
    (hd : t.output = .compacted d) (h : Spent p t) : Spent q t := by
  intro hv n hn hne hq
  have hp := source_of_rely hr ht hn hq
  rw [partRows_of_rely hr hp]
  exact h ((valid_iff_of_rely hr hd _).mp hv) n hn hne hp

end Stable

/-! ### Opening files -/

/-- The files of a list of names. -/
def Opened (names : List PartName) (files : List ParquetFile) (p : Partition) : Prop :=
  List.Forall₂ (fun n file => p.parts.lookup n = some file) names files

theorem Opened.of_rely {p q : Partition} (hr : MaintenanceRely p q) {names : List PartName}
    {files : List ParquetFile} (h : Opened names files p) : Opened names files q :=
  h.imp fun _ _ hf => hr.parts _ _ hf

theorem Opened.eq {p : Partition} {names : List PartName} {files files' : List ParquetFile}
    (h : Opened names files p) (h' : Opened names files' p) : files = files' := by
  induction h generalizing files' with
  | nil =>
    cases h'
    rfl
  | cons hf _ ih =>
    cases h' with
    | cons hf' h' =>
      rw [hf] at hf'
      cases hf'
      rw [ih h']

theorem Opened.mem {p : Partition} {names : List PartName} {files : List ParquetFile}
    (h : Opened names files p) {file : ParquetFile} (hfile : file ∈ files) :
    ∃ n ∈ names, p.parts.lookup n = some file := by
  induction h with
  | nil => cases hfile
  | cons hf _ ih =>
    rcases List.mem_cons.mp hfile with rfl | hfile
    · exact ⟨_, List.mem_cons_self .., hf⟩
    · obtain ⟨n, hn, hl⟩ := ih hfile
      exact ⟨n, List.mem_cons_of_mem _ hn, hl⟩

theorem Opened.present {p : Partition} {names : List PartName} {files : List ParquetFile}
    (h : Opened names files p) {n : PartName} (hn : n ∈ names) : n ∈ p.parts := by
  induction h with
  | nil => cases hn
  | cons hf _ ih =>
    rcases List.mem_cons.mp hn with rfl | hn
    · exact AList.lookup_isSome.mp (by rw [hf]; rfl)
    · exact ih hn

theorem Opened.contents {p : Partition} {names : List PartName} {files : List ParquetFile}
    (h : Opened names files p) : files.map contents = names.map (partRows p) := by
  induction h with
  | nil => rfl
  | cons hf _ ih => rw [List.map_cons, List.map_cons, ih, partRows_of_lookup hf]

variable {P : Partition → Prop} (S : Safe spooled digest feed base C quiet)
include S

/-- **Opening files**, of which all that is known stays known. -/
theorem ensures_openParquets (hP : C.Stable P)
    (hI : ∀ t, P t → Kept spooled digest feed base t) (names : List PartName) (h : P s) :
    Ensures C (fun files t => P t ∧ Opened names files t)
      (Raised (Kept spooled digest feed base) True) (openParquets names) s := by
  induction names generalizing P s with
  | nil => exact Ensures.pure_of hP h fun t ht => ⟨ht, List.Forall₂.nil⟩
  | cons name names ih =>
    have hstable : ∀ file, C.Stable fun t => P t ∧ t.parts.lookup name = some file :=
      fun file t u hr ht => ⟨hP t u hr ht.1, (S.relies t u (hI t ht.1) hr).parts _ _ ht.2⟩
    have hopen : Ensures C (fun file t => P t ∧ t.parts.lookup name = some file)
        (Raised (Kept spooled digest feed base) True) (openParquet name) s := by
      refine S.read (Q := fun file t => P t ∧ t.parts.lookup name = some file) hP hstable hI
        (fun t file ht hfile => ⟨ht, ?_⟩) (fun _ _ _ _ => trivial) h
      cases hl : t.parts.lookup name with
      | none => simp [hl, missing] at hfile
      | some f =>
        simp only [hl, Except.ok.injEq] at hfile
        rw [hfile]
    refine hopen.bind fun file t ht => ?_
    refine (ih (hstable file) (fun u hu => hI u hu.1) ht).bind fun files u hu => ?_
    refine Ensures.pure_of (P := fun u => (P u ∧ u.parts.lookup name = some file) ∧
        Opened names files u)
      (fun v w hr hv => ⟨hstable file v w hr hv.1, hv.2.of_rely (S.relies v w (hI v hv.1.1) hr)⟩)
      hu fun v hv => ⟨hv.1.1, List.Forall₂.cons hv.1.2 hv.2⟩

/-! ### Removing the sources -/

/-- What is known once the look at the spool directory is done. -/
theorem Safe.stable_quiet {A : Partition → Prop}
    (h : ∀ p q, Kept spooled digest feed base p → MaintenanceRely p q → A p → A q) :
    C.Stable fun p => Kept spooled digest feed base p ∧ quiet p ∧ A p := fun p q hr hp =>
  have hr' := S.relies p q hp.1 hr
  ⟨S.inv p q hr hp.1, S.stays p q hp.1 hr' hr hp.2.1, h p q hp.1 hr' hp.2.2⟩

omit S in
theorem Kept.output {p : Partition} (h : Kept spooled digest feed base p) {t : Transaction}
    (ht : p.transaction = some t) : ∃ d, t.output = .compacted d :=
  (h.core.transaction t ht).2

/-- The output of the transaction is in place, and its sources but those `left` are gone. -/
def Left (t : Transaction) (left : List PartName) (p : Partition) : Prop :=
  p.transaction = some t ∧ Valid p t.output t.expectedRows ∧
    ∀ n ∈ t.sources, n ≠ t.output → n ∉ left → n ∉ p.parts

theorem stable_left (t : Transaction) (left : List PartName) :
    C.Stable fun p => Kept spooled digest feed base p ∧ quiet p ∧ Left t left p := by
  refine S.stable_quiet fun p q hI hr hp => ⟨hr.transaction.trans hp.1, ?_, fun n hn hne hl hq => ?_⟩
  · obtain ⟨d, hd⟩ := hI.output hp.1
    exact (valid_iff_of_rely hr hd _).mpr hp.2.1
  · exact hp.2.2 n hn hne hl (source_of_rely hr hp.1 hn hq)

/-- The removal of one source. -/
theorem unlinkPart_step {t : Transaction} {n : PartName} {left : List PartName} {p : Partition}
    (hn : n ∈ t.sources) (hne : n ≠ t.output)
    (hp : Kept spooled digest feed base p ∧ quiet p ∧ Left t (n :: left) p)
    (ha : C.admits (.unlink (.part n)) .ok p) :
    C.guarantee p { p with parts := p.parts.erase n } ∧
      Kept spooled digest feed base { p with parts := p.parts.erase n } ∧
        quiet { p with parts := p.parts.erase n } ∧
          Left t left { p with parts := p.parts.erase n } := by
  obtain ⟨hI, hquiet, ht, hv, hgone⟩ := hp
  have hfree := S.unlink n p hI hquiet ha
  have hI' : Kept spooled digest feed base { p with parts := p.parts.erase n } :=
    ⟨hI.core.unlinkPart ht hv hn hne hfree, fun h => (hI.spooled h).unlinkPart n⟩
  have hstep : MaintenanceStep p { p with parts := p.parts.erase n } :=
    ⟨rfl, rfl, rfl, rfl, rfl, Or.inl, fun d m hm => AList.lookup_erase_ne (hfree d m hm)⟩
  refine ⟨S.allows p _ hI hI' hstep, hI', S.step p _ hstep hquiet, ht, ?_, fun x hx hxo hl hmem => ?_⟩
  · rw [Valid, AList.lookup_erase_ne hne.symm]
    exact hv
  · obtain ⟨hxn, hmem'⟩ := AList.mem_erase.mp hmem
    exact hgone x hx hxo (by simp [hxn, hl]) hmem'

/-- **Removing the sources** one after the other. -/
theorem ensures_unlinkSources {t : Transaction} {remove : PartName → PartitionProg Unit}
    (hremove : ∀ n left p, n ∈ t.sources → n ≠ t.output →
      (Kept spooled digest feed base p ∧ quiet p ∧ Left t (n :: left) p) →
      Ensures C (fun _ q => Kept spooled digest feed base q ∧ quiet q ∧ Left t left q)
        (Raised (Kept spooled digest feed base) True) (remove n) p)
    {left : List PartName} (hsub : ∀ n ∈ left, n ∈ t.sources)
    (h : Kept spooled digest feed base s ∧ quiet s ∧ Left t left s) :
    Ensures C (fun _ p => Kept spooled digest feed base p ∧ quiet p ∧ Left t [] p)
      (Raised (Kept spooled digest feed base) True) (unlinkSources remove t.output left) s := by
  induction left generalizing s with
  | nil => exact Ensures.pure_of (stable_left S t []) h fun _ h => h
  | cons n left ih =>
    have hn := hsub n (List.mem_cons_self ..)
    have hrest : ∀ p, (Kept spooled digest feed base p ∧ quiet p ∧ Left t left p) →
        Ensures C (fun _ p => Kept spooled digest feed base p ∧ quiet p ∧ Left t [] p)
          (Raised (Kept spooled digest feed base) True) (unlinkSources remove t.output left) p :=
      fun p hp => ih (fun x hx => hsub x (List.mem_cons_of_mem _ hx)) hp
    by_cases hne : n ≠ t.output
    · rw [unlinkSources, if_pos hne]
      exact (hremove n left s hn hne h).bind fun _ p hp => hrest p hp
    · rw [unlinkSources, if_neg hne]
      refine hrest s ⟨h.1, h.2.1, h.2.2.1, h.2.2.2.1, fun x hx hxo hl => ?_⟩
      refine h.2.2.2.2 x hx hxo fun hmem => ?_
      rcases List.mem_cons.mp hmem with rfl | hmem
      · exact hne hxo
      · exact hl hmem

theorem ensures_unlinkPart {t : Transaction} {n : PartName} {left : List PartName}
    (hn : n ∈ t.sources) (hne : n ≠ t.output)
    (h : Kept spooled digest feed base s ∧ quiet s ∧ Left t (n :: left) s) :
    Ensures C (fun _ q => Kept spooled digest feed base q ∧ quiet q ∧ Left t left q)
      (Raised (Kept spooled digest feed base) True) (unlinkPart n) s :=
  S.toKeeps.unlink (stable_left S t (n :: left)) (stable_left S t left) (fun _ hp => hp.1)
    (fun _ _ _ => trivial) (fun _ hp ha => unlinkPart_step S hn hne hp ha) h

theorem ensures_unlinkPart_ignoreMissing {t : Transaction} {n : PartName} {left : List PartName}
    (hn : n ∈ t.sources) (hne : n ≠ t.output)
    (h : Kept spooled digest feed base s ∧ quiet s ∧ Left t (n :: left) s) :
    Ensures C (fun _ q => Kept spooled digest feed base q ∧ quiet q ∧ Left t left q)
      (Raised (Kept spooled digest feed base) True) (ignoreMissing (unlinkPart n)) s := by
  refine S.toKeeps.ignoreMissing (stable_left S t (n :: left)) (stable_left S t left)
    (fun _ hp => hp.1) (fun p hp hmissing => ?_)
    (fun _ hp _ ha => unlinkPart_step S hn hne hp ha) h
  refine ⟨hp.1, hp.2.1, hp.2.2.1, hp.2.2.2.1, fun x hx hxo hl => ?_⟩
  by_cases hxn : x = n
  · subst hxn
    simpa using hmissing
  · exact hp.2.2.2.2 x hx hxo (by simp [hxn, hl])

/-- No compaction is left half done. -/
def Closed (spooled : Prop) (digest : List String → String) (feed : Feed)
    (base : Multiset (String → Value)) (p : Partition) : Prop :=
  Kept spooled digest feed base p ∧ p.transaction = none

theorem stable_closed : C.Stable (Closed spooled digest feed base) :=
  S.stable fun _ _ _ hr hp => hr.transaction.trans hp

/-- **The marker goes** after the sources. -/
theorem ensures_unlinkTransaction {t : Transaction}
    (h : Kept spooled digest feed base s ∧ quiet s ∧ Left t [] s) :
    Ensures C (fun _ => Closed spooled digest feed base)
      (Raised (Kept spooled digest feed base) True) unlinkTransaction s := by
  refine S.toKeeps.unlink (stable_left S t []) (stable_closed S) (fun _ hp => hp.1)
    (fun _ _ _ => trivial) (fun p hp _ => ?_) h
  obtain ⟨hI, -, ht, hv, hgone⟩ := hp
  have hI' : Kept spooled digest feed base { p with transaction := none } :=
    ⟨hI.core.unlinkTransaction ht fun _ n hn hne hmem =>
      absurd hmem (hgone n hn hne List.not_mem_nil), fun h => (hI.spooled h).unlinkTransaction⟩
  exact ⟨S.allows p _ hI hI' ⟨rfl, rfl, rfl, rfl, rfl, fun hne => absurd rfl hne, fun _ _ _ => rfl⟩,
    hI', rfl⟩

/-! ### Merging -/

/-- A transaction whose sources are all there. If its output is in place as well, it is one of
them, and has all their rows. -/
def Merging (t : Transaction) (p : Partition) : Prop :=
  p.transaction = some t ∧ (∀ n ∈ t.sources, n ∈ p.parts) ∧
    (Valid p t.output t.expectedRows →
      t.output ∈ t.sources ∧ ∀ n ∈ t.sources, n ≠ t.output → partRows p n = 0)

theorem stable_merging (t : Transaction) :
    C.Stable fun p => Kept spooled digest feed base p ∧ quiet p ∧ Merging t p := by
  refine S.stable_quiet fun p q hI hr hp => ⟨hr.transaction.trans hp.1,
    fun n hn => mem_parts_of_rely hr (hp.2.1 n hn), fun hv => ?_⟩
  obtain ⟨d, hd⟩ := hI.output hp.1
  obtain ⟨hown, hzero⟩ := hp.2.2 ((valid_iff_of_rely hr hd _).mp hv)
  exact ⟨hown, fun n hn hne => by rw [partRows_of_rely hr (hp.2.1 n hn), hzero n hn hne]⟩

/-- The merged file takes its place. -/
theorem install_step {t : Transaction} {p : Partition} {file : ParquetFile}
    (hI : Kept spooled digest feed base p) (hquiet : quiet p) (hm : Merging t p)
    (hfile : Aligned file) (hrows : contents file = (t.sources.map (partRows p)).sum)
    (hcount : file.rows.length = t.expectedRows) :
    C.guarantee p { p with parts := p.parts.insert t.output file } ∧
      Kept spooled digest feed base { p with parts := p.parts.insert t.output file } ∧
        quiet { p with parts := p.parts.insert t.output file } ∧
          Left t t.sources { p with parts := p.parts.insert t.output file } := by
  obtain ⟨ht, hpresent, hown⟩ := hm
  obtain ⟨d, hd⟩ := hI.output ht
  have hcore : Core feed base { p with parts := p.parts.insert t.output file } := by
    by_cases hv : Valid p t.output t.expectedRows
    · obtain ⟨hmem, hzero⟩ := hown hv
      refine hI.core.replacePart (hpresent _ hmem) hfile ?_
      rw [hrows, List.sum_map_eq_nsmul_single t.output _ fun n hne hn => hzero n hn hne,
        List.count_eq_one_of_mem (hI.core.transaction t ht).1 hmem, one_nsmul]
    · exact hI.core.installTransaction ht hv hfile hrows
  have hI' : Kept spooled digest feed base { p with parts := p.parts.insert t.output file } := by
    refine ⟨hcore, fun h => ?_⟩
    rw [hd]
    exact (hI.spooled h).installTransaction
  have hstep : MaintenanceStep p { p with parts := p.parts.insert t.output file } := by
    refine ⟨rfl, rfl, rfl, rfl, rfl, Or.inl, fun d' m hm => AList.lookup_insert_ne ?_⟩
    obtain ⟨l, d'', hout⟩ := hI.core.commits d' m hm
    rw [hout, hd]
    exact fun heq => by cases heq
  exact ⟨S.allows p _ hI hI' hstep, hI', S.step p _ hstep hquiet, ht,
    ⟨file, AList.lookup_insert _, hcount⟩, fun n hn _ hl => absurd hn hl⟩

/-- What the loop over the sources finds: files in the merged schema. -/
def Loaded (t : Transaction) (files : List ParquetFile) (p : Partition) : Prop :=
  Merging t p ∧ Opened t.sources files p

theorem stable_loaded (t : Transaction) (files : List ParquetFile) :
    C.Stable fun p => Kept spooled digest feed base p ∧ quiet p ∧ Loaded t files p := by
  intro p q hr hp
  obtain ⟨hI, hquiet, hm⟩ := stable_merging S t p q hr ⟨hp.1, hp.2.1, hp.2.2.1⟩
  exact ⟨hI, hquiet, hm, hp.2.2.2.of_rely (S.relies p q hp.1 hr)⟩

/-- What happens once the output is in place. -/
theorem ensures_finishMerge {t : Transaction}
    (h : Kept spooled digest feed base s ∧ quiet s ∧ Left t t.sources s) :
    Ensures C (fun _ => Closed spooled digest feed base)
      (Raised (Kept spooled digest feed base) True)
      (do
        if (← parquetRowCount t.output) ≠ t.expectedRows then
          throw ⟨.osError, "atomic compaction output failed validation"⟩
        unlinkSources unlinkPart t.output t.sources
        unlinkTransaction) s := by
  obtain ⟨d, hd⟩ := h.1.output h.2.2.1
  refine (ensures_parquetRowCount S.toKeeps (stable_left S t t.sources) (fun _ hp => hp.1)
    (fun p hp => ?_) (fun p q hp hr => ?_) h).bind fun n p hp => ?_
  · obtain ⟨file, hfile, -⟩ := hp.2.2.2.1
    exact AList.lookup_isSome.mp (by rw [hfile]; rfl)
  · rw [hd]
    exact lookup_output_of_rely (S.relies p q hp.1 hr)
  have hn : n = t.expectedRows := by
    obtain ⟨file, hfile, hlength⟩ := hp.2
    obtain ⟨file', hfile', hlength'⟩ := hp.1.2.2.2.1
    rw [hfile] at hfile'
    cases hfile'
    exact hlength.symm.trans hlength'
  simp only [hn, ne_eq, not_true_eq_false, if_false]
  refine (ensures_unlinkSources S (fun n left p hn hne hp => ensures_unlinkPart S hn hne hp)
    (fun _ hn => hn) hp.1).bind fun _ p hp => ?_
  exact ensures_unlinkTransaction S hp

/-- **The merge**: the output takes the place of the sources. -/
theorem ensures_mergeSources {t : Transaction}
    (h : Kept spooled digest feed base s ∧ quiet s ∧ Merging t s) :
    Ensures C (fun _ => Closed spooled digest feed base)
      (Raised (Kept spooled digest feed base) True) (mergeSources t) s := by
  have hraise : ∀ {α : Type} {post : α → Partition → Prop} (e : PyError) (p : Partition),
      Kept spooled digest feed base p →
      Ensures C post (Raised (Kept spooled digest feed base) True) (.throw e) p :=
    fun e p hp => Ensures.throw_of S.inv hp fun _ hq => ⟨hq, trivial⟩
  have hI : ∀ files p, (Kept spooled digest feed base p ∧ quiet p ∧ Loaded t files p) →
      Kept spooled digest feed base p := fun _ _ hp => hp.1
  have hopen : ∀ {P : Partition → Prop}, C.Stable P →
      (∀ p, P p → Kept spooled digest feed base p ∧ quiet p ∧ Merging t p) → ∀ p, P p →
      Ensures C (fun files q => P q ∧ Opened t.sources files q)
        (Raised (Kept spooled digest feed base) True) (openParquets t.sources) p :=
    fun hP hPM p hp => ensures_openParquets S hP (fun q hq => (hPM q hq).1) t.sources hp
  refine (hopen (stable_merging S t) (fun _ hp => hp) s h).bind fun files p hp => ?_
  refine (S.skip (stable_loaded S t files) (hI files) ⟨hp.1.1, hp.1.2.1, hp.1.2.2, hp.2⟩).bind
    fun _ p hp => ?_
  cases hschema : unifySchemas (files.map ParquetFile.schema) with
  | error e => exact hraise e p hp.1
  | ok schema =>
    have hbody : Ensures C (fun _ => Closed spooled digest feed base)
        (Raised (Kept spooled digest feed base) True)
        (do
          fsOp (.write .openTemporary (.part t.output)) id
          let rows := (← openParquets t.sources).flatMap (alignTable schema)
          fsOp (.write .write (.part t.output)) id
          if rows.length ≠ t.expectedRows then
            throw ⟨.osError, "compacted row count does not match source row count"⟩
          fsOp (.write .replace (.part t.output)) fun p =>
            { p with parts := p.parts.insert t.output ⟨schema, rows⟩ }
          if (← parquetRowCount t.output) ≠ t.expectedRows then
            throw ⟨.osError, "atomic compaction output failed validation"⟩
          unlinkSources unlinkPart t.output t.sources
          unlinkTransaction) p := by
      refine (S.skip (stable_loaded S t files) (hI files) hp).bind fun _ p hp => ?_
      refine (hopen (stable_loaded S t files) (fun _ hq => ⟨hq.1, hq.2.1, hq.2.2.1⟩) p hp).bind
        fun files' p hp => ?_
      obtain ⟨hp, hfiles'⟩ := hp
      obtain rfl : files = files' := hp.2.2.2.eq hfiles'
      refine (S.skip (stable_loaded S t files) (hI files) hp).bind fun _ p hp => ?_
      dsimp only
      split
      · exact hraise _ p hp.1
      · next hcount =>
        refine (S.op (stable_loaded S t files) (stable_left S t t.sources) (hI files)
          (fun q hq _ => ?_) hp).bind fun _ q hq => ensures_finishMerge S hq
        obtain ⟨hkept, hquiet, hm, hopened⟩ := hq
        have halign : ∀ file ∈ files, Aligned file := fun file hfile => by
          obtain ⟨n, -, hl⟩ := hopened.mem hfile
          exact hkept.core.aligned n file hl
        have hsub : ∀ file ∈ files, file.schema ⊆ schema := fun file hfile =>
          subset_of_unifySchemas hschema (List.mem_map_of_mem hfile)
        refine install_step S hkept hquiet hm (aligned_merged schema files) ?_ (not_not.mp hcount)
        rw [contents_merged halign hsub, hopened.contents]
    refine (S.onError (fun q hq => ⟨S.refl q, hq⟩) hbody).bind fun _ q hq => ?_
    refine (S.skip (stable_closed S) (fun _ hq => hq.1) hq).bind fun _ q hq => ?_
    exact Ensures.pure_of (stable_closed S) hq fun _ h => h

/-! ### A call -/

theorem ensures_allPartsPresent (hP : C.Stable P)
    (hI : ∀ t, P t → Kept spooled digest feed base t) (parts : List PartName) (h : P s) :
    Ensures C (fun b p => P p ∧ (b = true → ∀ n ∈ parts, n ∈ p.parts))
      (Raised (Kept spooled digest feed base) True) (allPartsPresent parts) s := by
  induction parts generalizing P s with
  | nil => exact Ensures.pure_of hP h fun p hp => ⟨hp, fun _ n hn => absurd hn List.not_mem_nil⟩
  | cons part parts ih =>
    have hstable : ∀ b : Bool, C.Stable fun p => P p ∧ (b = true → part ∈ p.parts) :=
      fun b p q hr hp => ⟨hP p q hr hp.1, fun hb =>
        mem_parts_of_rely (S.relies p q (hI p hp.1) hr) (hp.2 hb)⟩
    have hstat : Ensures C (fun b p => P p ∧ (b = true → part ∈ p.parts))
        (Raised (Kept spooled digest feed base) True)
        (fsRead (.stat (.part part)) fun p => .ok (decide (part ∈ p.parts))) s :=
      S.read hP hstable hI (fun p b hp hb => ⟨hp, fun htrue => by
        cases hb
        exact of_decide_eq_true htrue⟩) (fun _ _ _ _ => trivial) h
    refine hstat.bind fun b p hp => ?_
    cases b with
    | false => exact Ensures.pure_of hP hp.1 fun q hq => ⟨hq, fun hf => by cases hf⟩
    | true =>
      refine (ih (hstable true) (fun q hq => hI q hq.1) hp).mono
        (fun b q hq => ⟨hq.1.1, fun hb n hn => ?_⟩) fun _ _ h => h
      rcases List.mem_cons.mp hn with rfl | hn
      · exact hq.1.2 rfl
      · exact hq.2 hb n hn

/-- **A call that found a marker** finishes it or merges its sources again. -/
theorem ensures_resume {t : Transaction}
    (h : Kept spooled digest feed base s ∧ quiet s ∧ s.transaction = some t) :
    Ensures C (fun _ => Closed spooled digest feed base)
      (Raised (Kept spooled digest feed base) True) (resume t) s := by
  obtain ⟨d, hd⟩ := h.1.output h.2.2
  have hP : C.Stable fun p =>
      Kept spooled digest feed base p ∧ quiet p ∧ p.transaction = some t :=
    S.stable_quiet fun _ _ _ hr hp => hr.transaction.trans hp
  refine (ensures_validOutput S.toKeeps hP (fun _ hp => hp.1) t.expectedRows (fun p q hp hr => by
    rw [hd]
    exact lookup_output_of_rely (S.relies p q hp.1 hr)) h).bind fun b p hp => ?_
  obtain ⟨⟨hI, hquiet, ht⟩, hb⟩ := hp
  cases b with
  | true =>
    refine (ensures_unlinkSources S
      (fun n left p hn hne hp => ensures_unlinkPart_ignoreMissing S hn hne hp) (fun _ hn => hn)
      ⟨hI, hquiet, ht, hb.mp rfl, fun n hn _ hl => absurd hn hl⟩).bind fun _ p hp => ?_
    refine (ensures_unlinkTransaction S hp).bind fun _ p hp => ?_
    exact Ensures.pure_of (stable_closed S) hp fun _ h => h
  | false =>
    have hnot : ¬ Valid p t.output t.expectedRows := fun hv => by cases hb.mpr hv
    have hA : C.Stable fun p => Kept spooled digest feed base p ∧ quiet p ∧
        (p.transaction = some t ∧ ¬ Valid p t.output t.expectedRows) :=
      S.stable_quiet fun p q _ hr hp => ⟨hr.transaction.trans hp.1,
        fun hv => hp.2 ((valid_iff_of_rely hr hd _).mp hv)⟩
    refine (ensures_allPartsPresent S hA (fun _ hp => hp.1) t.sources
      ⟨hI, hquiet, ht, hnot⟩).bind fun b p hp => ?_
    obtain ⟨⟨hI, hquiet, ht, hnot⟩, hpresent⟩ := hp
    cases b with
    | true =>
      exact ensures_mergeSources S ⟨hI, hquiet, ht, hpresent rfl, fun hv => absurd hv hnot⟩
    | false => exact Ensures.throw_of S.inv hI fun _ hq => ⟨hq, trivial⟩

/-- An earlier compaction hides no rows. -/
def AllSpent (p : Partition) : Prop := ∀ t, p.transaction = some t → Spent p t

omit S in
theorem AllSpent.of_rely {p q : Partition} (hI : Kept spooled digest feed base p)
    (hr : MaintenanceRely p q) (h : AllSpent p) : AllSpent q := by
  intro t ht
  rw [hr.transaction] at ht
  obtain ⟨d, hd⟩ := hI.output ht
  exact spent_of_rely hr ht hd (h t ht)

/-- A list of files, with all compacted ones among them. -/
def Listed (sources : List PartName) (p : Partition) : Prop :=
  sources.Nodup ∧ (∀ n ∈ sources, n ∈ p.parts) ∧
    ∀ d, PartName.compacted d ∈ p.parts → PartName.compacted d ∈ sources

omit S in
theorem Listed.of_rely {p q : Partition} (hr : MaintenanceRely p q) {sources : List PartName}
    (h : Listed sources p) : Listed sources q :=
  ⟨h.1, fun n hn => mem_parts_of_rely hr (h.2.1 n hn),
    fun d hd => h.2.2 d (compacted_of_rely hr hd)⟩

omit S in
/-- The transaction of the listed files is one of the partition. -/
theorem sources_newTransaction {p : Partition} {identity : Identity} {sources : List PartName}
    {files : List ParquetFile} (hl : Listed sources p) (ho : Opened sources files p) :
    Sources p (newTransaction identity sources files) where
  nodup := hl.1
  output := ⟨_, rfl⟩
  present := hl.2.1
  expected := by
    rw [newTransaction]
    have hcard : (sources.map fun n => (partRows p n).card) =
        (sources.map (partRows p)).map Multiset.card := by rw [List.map_map]; rfl
    rw [hcard, ← ho.contents, List.map_map]
    exact congrArg List.sum (List.map_congr_left fun file _ => card_contents file)
  own := hl.2.2 _

omit S in
theorem merging_of_sources {p : Partition} {t : Transaction}
    (h : Core feed base p) (hnone : p.transaction = none) (hs : Sources p t) :
    Merging t { p with transaction := some t } := by
  refine ⟨rfl, hs.present, fun hv => ?_⟩
  have hi : (store feed p).Installed (transactionMerge t) := (installed_iff rfl).mpr hv
  obtain ⟨file, hfile, -⟩ := hv
  have hmem : t.output ∈ p.parts := AList.lookup_isSome.mp (by rw [hfile]; rfl)
  refine ⟨hs.own hmem, fun n hn hne => ?_⟩
  exact (h.opens hnone hs).rows_eq_zero hi (inr_mem_transactionMerge.mpr hn)
    fun heq => hne (Sum.inr.inj heq)

/-- The new marker, over one that hides nothing. -/
theorem openTransaction_step {t : Transaction} {p : Partition}
    (hI : Kept spooled digest feed base p) (hquiet : quiet p) (hspent : AllSpent p)
    (hs : Sources p t) :
    C.guarantee p { p with transaction := some t } ∧
      Kept spooled digest feed base { p with transaction := some t } ∧
        quiet { p with transaction := some t } ∧ Merging t { p with transaction := some t } := by
  have hclosed : Kept spooled digest feed base { p with transaction := none } := by
    cases ht : p.transaction with
    | none =>
      rw [← ht]
      exact hI
    | some t₀ =>
      exact ⟨hI.core.unlinkTransaction ht (hspent t₀ ht),
        fun h => (hI.spooled h).unlinkTransaction⟩
  have hs' : Sources { p with transaction := none } t :=
    ⟨hs.nodup, hs.output, hs.present, hs.expected, hs.own⟩
  have hI' : Kept spooled digest feed base { p with transaction := some t } :=
    ⟨hclosed.core.openTransaction rfl hs', fun h => (hclosed.spooled h).openTransaction hs'⟩
  have hstep : MaintenanceStep p { p with transaction := some t } :=
    ⟨rfl, rfl, rfl, rfl, rfl, fun _ => Or.inr (S.directory p hI hquiet), fun _ _ _ => rfl⟩
  have hmerging : Merging t { { p with transaction := none } with transaction := some t } :=
    merging_of_sources hclosed.core rfl hs'
  exact ⟨S.allows p _ hI hI' hstep, hI', S.step p _ hstep hquiet, hmerging⟩

/-- What a call leaves behind: a returned output has replaced its sources. -/
def Compacted (spooled : Prop) (digest : List String → String) (feed : Feed)
    (base : Multiset (String → Value)) (output : Option PartName) (p : Partition) : Prop :=
  Kept spooled digest feed base p ∧ (output ≠ none → p.transaction = none)

omit S in
theorem Closed.compacted {p : Partition} (h : Closed spooled digest feed base p)
    (output : Option PartName) : Compacted spooled digest feed base output p ∧ AllSpent p := by
  refine ⟨⟨h.1, fun _ => h.2⟩, fun t ht => ?_⟩
  rw [h.2] at ht
  cases ht

/-- **A call that found no marker** merges what is there. -/
theorem ensures_compactListed (identity : Identity) (minFiles : ℤ)
    (h : Kept spooled digest feed base s ∧ quiet s ∧ AllSpent s) :
    Ensures C (fun output p => Compacted spooled digest feed base output p ∧ AllSpent p)
      (Raised (Kept spooled digest feed base) True) (compactListed identity minFiles) s := by
  have hP : C.Stable fun p => Kept spooled digest feed base p ∧ quiet p ∧ AllSpent p :=
    S.stable_quiet fun _ _ hI hr hp => hp.of_rely hI hr
  have hL : ∀ sources, C.Stable fun p => Kept spooled digest feed base p ∧ quiet p ∧
      (AllSpent p ∧ Listed sources p) := fun sources =>
    S.stable_quiet fun _ _ hI hr hp => ⟨hp.1.of_rely hI hr, hp.2.of_rely hr⟩
  have hlist : Ensures C (fun sources p => Kept spooled digest feed base p ∧ quiet p ∧
      (AllSpent p ∧ Listed sources p)) (Raised (Kept spooled digest feed base) True) listParts s := by
    refine S.read hP hL (fun _ hp => hp.1) (fun p sources hp hsources => ?_)
      (fun _ _ _ _ => trivial) h
    cases hsources
    have hperm := List.perm_insertionSort (fun a b : PartName => a.text ≤ b.text) p.parts.keys
    exact ⟨hp.1, hp.2.1, hp.2.2, hperm.nodup_iff.mpr p.parts.keys_nodup,
      fun n hn => AList.mem_keys.mpr (hperm.mem_iff.mp hn),
      fun d hd => hperm.mem_iff.mpr (AList.mem_keys.mp hd)⟩
  refine hlist.bind fun sources p hp => ?_
  split
  · exact Ensures.pure_of hP ⟨hp.1, hp.2.1, hp.2.2.1⟩
      fun q hq => ⟨⟨hq.1, fun hne => absurd rfl hne⟩, hq.2.2⟩
  refine (ensures_openParquets S (hL sources) (fun _ hp => hp.1) sources hp).bind
    fun files p hp => ?_
  have hO : C.Stable fun p => Kept spooled digest feed base p ∧ quiet p ∧
      (AllSpent p ∧ Listed sources p ∧ Opened sources files p) :=
    S.stable_quiet fun _ _ hI hr hp => ⟨hp.1.of_rely hI hr, hp.2.1.of_rely hr, hp.2.2.of_rely hr⟩
  refine (S.atomicWrite hO (stable_merging S (newTransaction identity sources files))
    (fun _ hp => hp.1) (fun _ hp => hp.1) (fun q hq => ⟨S.refl q, hq⟩) (fun q hq => ⟨S.refl q, hq⟩)
    (fun q hq _ => ?_) ⟨hp.1.1, hp.1.2.1, hp.1.2.2.1, hp.1.2.2.2, hp.2⟩).bind
    fun _ p hp => (ensures_mergeSources S hp).mono (fun output q hq => hq.compacted output)
      fun _ _ h => h
  exact openTransaction_step S hq.1 hq.2.1 hq.2.2.1 (sources_newTransaction hq.2.2.2.1 hq.2.2.2.2)

/-- **A call that looks for a marker** leaves no compaction behind that hides rows. -/
theorem ensures_compactFound (identity : Identity) (minFiles : ℤ)
    (h : Kept spooled digest feed base s ∧ quiet s) :
    Ensures C (fun output p => Compacted spooled digest feed base output p ∧ AllSpent p)
      (Raised (Kept spooled digest feed base) True) (compactFound identity minFiles) s := by
  have hK : C.Stable fun p => Kept spooled digest feed base p ∧ quiet p ∧ True :=
    S.stable_quiet fun _ _ _ _ h => h
  have hQ : ∀ r : Option Transaction, C.Stable fun p =>
      Kept spooled digest feed base p ∧ quiet p ∧
        ((∀ t, r = some t → p.transaction = some t) ∧ (r = none → AllSpent p)) := fun r =>
    S.stable_quiet fun _ _ hI hr hp =>
      ⟨fun t ht => hr.transaction.trans (hp.1 t ht), fun hn => (hp.2 hn).of_rely hI hr⟩
  have hread : Ensures C (fun r p => Kept spooled digest feed base p ∧ quiet p ∧
      ((∀ t, r = some t → p.transaction = some t) ∧ (r = none → AllSpent p)))
      (Raised (Kept spooled digest feed base) True)
      (readJson (.read .transaction) none Partition.transaction) s := by
    have hfound : ∀ q, (Kept spooled digest feed base q ∧ quiet q ∧ True) →
        (∀ t, q.transaction = some t → q.transaction = some t) ∧
          (q.transaction = none → AllSpent q) := fun q _ =>
      ⟨fun _ ht => ht, fun hn t ht => by rw [hn] at ht; cases ht⟩
    have hfault : ∀ n q, (Kept spooled digest feed base q ∧ quiet q ∧ True) →
        C.admits (.read .transaction) (.fault n) q →
        (∀ t, (none : Option Transaction) = some t → q.transaction = some t) ∧
          ((none : Option Transaction) = none → AllSpent q) := fun n q hq ha =>
      ⟨fun _ ht => (Option.some_ne_none _ ht.symm).elim, fun _ t ht => S.marker n q t hq.1 ha ht⟩
    exact S.toKeeps.readJson hK hQ (fun q hq => ⟨hq.1, hq.2.1, hfound q hq⟩)
      (fun q n hq ha => ⟨hq.1, hq.2.1, hfault n q hq ha⟩) ⟨h.1, h.2, trivial⟩
  refine hread.bind fun r p hp => ?_
  cases r with
  | some t =>
    exact (ensures_resume S ⟨hp.1, hp.2.1, hp.2.2.1 t rfl⟩).mono
      (fun output q hq => hq.compacted output) fun _ _ h => h
  | none => exact ensures_compactListed S identity minFiles ⟨hp.1, hp.2.1, hp.2.2.2 rfl⟩

/-- **A call of `compact_partition`** keeps the rows; a returned output has replaced its sources. -/
theorem ensures_compactPartition (identity : Identity) (minFiles : ℤ)
    (h : Kept spooled digest feed base s) :
    Ensures C (Compacted spooled digest feed base) (Raised (Kept spooled digest feed base) True)
      (compactPartition identity minFiles) s := by
  have hnone : ∀ p, Kept spooled digest feed base p →
      Ensures C (Compacted spooled digest feed base) (Raised (Kept spooled digest feed base) True)
        (.pure none) p := fun p hp =>
    Ensures.pure_of S.inv hp fun q hq => ⟨hq, fun hne => absurd rfl hne⟩
  have hdirectory : ∀ b : Bool, C.Stable fun p => Kept spooled digest feed base p ∧
      (b = true → p.partsDirectory = true) := fun b p q hr hp =>
    ⟨S.inv p q hr hp.1, fun hb => (S.relies p q hp.1 hr).directory (hp.2 hb)⟩
  have hstat : Ensures C (fun b p => Kept spooled digest feed base p ∧
      (b = true → p.partsDirectory = true)) (Raised (Kept spooled digest feed base) True)
      (fsRead (.stat .partsDirectory) fun p => .ok p.partsDirectory) s :=
    S.read S.inv hdirectory (fun _ hp => hp) (fun p b hp hb => ⟨hp, fun htrue => by
      cases hb
      exact htrue⟩) (fun _ _ _ _ => trivial) h
  refine hstat.bind fun b p hp => ?_
  cases b with
  | false => exact hnone p hp.1
  | true =>
    have hquiet : ∀ b : Bool, C.Stable fun p => Kept spooled digest feed base p ∧
        (b = true → quiet p) := fun b p q hr hp =>
      ⟨S.inv p q hr hp.1, fun hb => S.stays p q hp.1 (S.relies p q hp.1 hr) hr (hp.2 hb)⟩
    have hspool : Ensures C (fun b p => Kept spooled digest feed base p ∧ (b = true → quiet p))
        (Raised (Kept spooled digest feed base) True)
        (fsRead (.list .spoolDirectory) fun p => .ok (spoolEmpty p)) p :=
      S.read (hdirectory true) hquiet (fun _ hp => hp.1) (fun p b hp hb => ⟨hp.1, fun htrue => by
        cases hb
        exact S.start p hp.1 (hp.2 rfl) htrue⟩) (fun _ _ _ _ => trivial) hp
    refine hspool.bind fun b p hp => ?_
    cases b with
    | false => exact hnone p hp.1
    | true =>
      exact (ensures_compactFound S identity minFiles ⟨hp.1, hp.2 rfl⟩).mono
        (fun _ _ hq => hq.1) fun _ _ h => h

end BkkCollector.Storage.Compaction
