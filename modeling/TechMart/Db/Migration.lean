import TechMart.Db.MigrateSpecs

/-!
# The catalog file under a migration

The file between the two saves holds products without specs, and while a save
is under way it holds no catalog at all. `loses_nothing_iff` says after which
runs every product has old or new specs; `specs_assigned` says what a run
without failures writes.
-/

namespace TechMart.Db

open Python Prog

/-! ## The file -/

/-- What the file holds after a call, `none` for a cut off text. -/
def written (content : Option (List Value)) : Op × Except Raised Answer → Option (List Value)
  | (.openCatalog, .ok _) => none
  | (.dump data, .ok _) => some data
  | (.dump _, .error _) => none
  | _ => content

def onDisk (before : List Value) (log : Log) : Option (List Value) :=
  log.foldl written (some before)

/-- What a call can answer, over a file with these products. -/
def Serves (before : List Value) : Op → Except Raised Answer → Prop
  | .readCatalog, .ok answer => answer = .catalog before
  | .invoke _, .ok answer => ∃ result, answer = .result result
  | _, _ => True

def isOpen : Op × Except Raised Answer → Bool
  | (.openCatalog, .ok _) => true
  | _ => false

def isDump : Op × Except Raised Answer → Bool
  | (.dump _, .ok _) => true
  | _ => false

/-- How often the file was opened for writing. -/
def opened (log : Log) : Nat := log.countP isOpen

/-- How often a save came to its end. -/
def dumped (log : Log) : Nat := log.countP isDump

/-! ## The statements -/

/-- The specs the run extracted for the `j`-th product. -/
def extracted (log : Log) (j : Nat) (p : Value) : Option (Dict Value) :=
  ((replies log)[j / batchSize]?.join).map fun products => newSpecs products (idOf p)

/-- Every product still has the specs it had, or the ones extracted for it. -/
def LosesNothing (before : List Value) (log : Log) : Prop :=
  ∀ j p, before[j]? = some p → ∃ after q, onDisk before log = some after ∧ after[j]? = some q ∧
    (specsOf q = specsOf p ∨
      ∃ specs, extracted log j p = some specs ∧ specsOf q = some (.dict specs))

/-- The run stopped before the first save opened the file, or when no save was
under way; and then, if there were specs at all, both saves were through, and
each product with specs was in a batch that got a reply, behind no product of
the batch that specs cannot be mapped back into. -/
def StopsSafely (before : List Value) (log : Log) : Prop :=
  before = [] ∨ opened log = 0 ∨
  dumped log = opened log ∧ ∀ j p, before[j]? = some p → specsOf p ≠ none →
    dumped log = 2 ∧ ∃ products, Gets (replies log) before j products

/-! ## The parts of a run -/

section
variable {rt : Runtime} {before : List Value} {log : Log}

def Op.isSave : Op → Bool
  | .openCatalog | .dump _ => true
  | _ => false

theorem written_other {c : Op × Except Raised Answer} (h : c.1.isSave = false)
    (content : Option (List Value)) : written content c = content := by
  obtain ⟨q, ans⟩ := c
  cases q with
  | openCatalog | dump => cases h
  | readCatalog | structuredLlm | invoke | sleep => rfl

theorem foldl_written_other (hlog : ∀ c ∈ log, c.1.isSave = false)
    (content : Option (List Value)) : log.foldl written content = content := by
  induction log with
  | nil => rfl
  | cons c log ih =>
    rw [List.foldl_cons, written_other (hlog c List.mem_cons_self)]
    exact ih fun c' hc' => hlog c' (List.mem_cons_of_mem _ hc')

theorem opened_other (hlog : ∀ c ∈ log, c.1.isSave = false) : opened log = 0 := by
  rw [opened, List.countP_eq_zero]
  rintro ⟨q, ans⟩ hc
  cases q with
  | openCatalog => cases hlog _ hc
  | readCatalog | dump | structuredLlm | invoke | sleep => simp [isOpen]

theorem dumped_other (hlog : ∀ c ∈ log, c.1.isSave = false) : dumped log = 0 := by
  rw [dumped, List.countP_eq_zero]
  rintro ⟨q, ans⟩ hc
  cases q with
  | dump => cases hlog _ hc
  | readCatalog | openCatalog | structuredLlm | invoke | sleep => simp [isDump]

theorem runs_raising {α : Type} {x : Except Exn α} {r : Except Raised α}
    (h : Runs (raising x) log r) : log = [] ∧ ∀ a, r = .ok a → x = .ok a := by
  cases x with
  | ok a =>
    obtain ⟨rfl, rfl⟩ := runs_done h
    exact ⟨rfl, fun a ha => by cases ha; rfl⟩
  | error e =>
    obtain ⟨rfl, rfl⟩ := runs_raise h
    exact ⟨rfl, fun a ha => by cases ha⟩

theorem runs_perform_bind {α : Type} {q : Op} {f : Answer → Script α} {r : Except Raised α}
    (h : Runs (Prog.perform q >>= f) log r) :
    (∃ answer rest, log = (q, .ok answer) :: rest ∧ Runs (f answer) rest r) ∨
    ∃ e, log = [(q, .error e)] ∧ r = .error e := by
  rcases runs_bind h with ⟨first, answer, rest, rfl, hfirst, hrest⟩ | ⟨e, hfirst, rfl⟩
  · rw [runs_perform hfirst]
    exact Or.inl ⟨answer, rest, rfl, hrest⟩
  · exact Or.inr ⟨e, runs_perform hfirst, rfl⟩

theorem runs_readCatalog {r : Except Raised (List Value)} (h : Runs readCatalog log r)
    (hserves : ∀ c ∈ log, Serves before c.1 c.2) :
    (∃ ans, log = [(.readCatalog, ans)]) ∧ ∀ data, r = .ok data → data = before := by
  rcases runs_perform_bind h with ⟨answer, rest, rfl, hrest⟩ | ⟨e, rfl, rfl⟩
  · obtain rfl : answer = .catalog before := hserves _ List.mem_cons_self
    obtain ⟨rfl, rfl⟩ := runs_done hrest
    exact ⟨⟨_, rfl⟩, fun data hdata => by cases hdata; rfl⟩
  · exact ⟨⟨_, rfl⟩, fun data hdata => by cases hdata⟩

/-- A save fails before it has opened the file, or within, or is through. -/
theorem runs_save {data : List Value} {r : Except Raised Unit} (h : Runs (save data) log r) :
    (∃ e, log = [(.openCatalog, .error e)] ∧ r = .error e) ∨
    (∃ a e, log = [(.openCatalog, .ok a), (.dump data, .error e)] ∧ r = .error e) ∨
    ∃ a b, log = [(.openCatalog, .ok a), (.dump data, .ok b)] ∧ r = .ok () := by
  rcases runs_perform_bind h with ⟨a, rest, rfl, hrest⟩ | ⟨e, rfl, rfl⟩
  · rcases runs_perform_bind hrest with ⟨b, rest, rfl, hend⟩ | ⟨e, rfl, rfl⟩
    · obtain ⟨rfl, rfl⟩ := runs_done hend
      exact Or.inr (Or.inr ⟨a, b, rfl, rfl⟩)
    · exact Or.inr (Or.inl ⟨a, e, rfl, rfl⟩)
  · exact Or.inl ⟨e, rfl, rfl⟩

theorem runs_extractBatch {prompt : Str} {batch : List Value} {r : Except Raised (List Value)}
    (h : Runs (extractBatch prompt batch) log r) {batch' : List Value} (hr : r = .ok batch') :
    ∃ result, replies log = [result] ∧ batch' = mapResults result batch := by
  rcases runs_tryCatch h with ⟨a, hbody, rfl⟩ | ⟨tried, e, rest, rfl, hbody, hhandler⟩
  · cases hr
    rcases runs_perform_bind hbody with ⟨answer, rest, rfl, hrest⟩ | ⟨e, -, he⟩
    · cases answer with
      | result result =>
        obtain ⟨rfl, hend⟩ := runs_done hrest
        cases hend
        exact ⟨result, rfl, rfl⟩
      | done | catalog =>
        obtain ⟨rfl, hend⟩ := runs_done hrest
        cases hend
        exact ⟨none, rfl, rfl⟩
    · cases he
  · cases e with
    | exception e =>
      obtain ⟨rfl, hend⟩ := runs_done hhandler
      cases hr.symm.trans hend
      rcases runs_perform_bind hbody with ⟨answer, rest, rfl, hrest⟩ | ⟨e, rfl, -⟩
      · cases answer <;> cases (runs_done hrest).2
      · exact ⟨none, rfl, rfl⟩
    | aborted =>
      obtain ⟨-, hend⟩ := runs_raise hhandler
      cases hr.symm.trans hend

theorem replies_append (log log' : Log) : replies (log ++ log') = replies log ++ replies log' :=
  List.filterMap_append

/-- A run of the loop that comes to its end has gone through all batches. -/
theorem runs_batches (n : Nat) : ∀ {results : List (Option (List ProductSpecs))}
    {data current after : List Value} {log : Log}, Migrated results data current →
    Runs (migrateBatches rt ((List.range' results.length n).map (batchSize * ·)) current) log
      (.ok after) →
    Migrated (results ++ replies log) data after ∧ (replies log).length = n := by
  induction n with
  | zero =>
    intro results data current after log hmigrated hrun
    obtain ⟨rfl, hend⟩ := runs_done hrun
    cases hend
    rw [replies, List.filterMap_nil, List.append_nil]
    exact ⟨hmigrated, rfl⟩
  | succ n ih =>
    intro results data current after log hmigrated hrun
    rw [List.range'_succ, List.map_cons, migrateBatches] at hrun
    rcases runs_bind hrun with ⟨prompted, prompt, log, rfl, hprompt, hbody⟩ | ⟨e, -, he⟩
    · obtain ⟨rfl, -⟩ := runs_raising hprompt
      rcases runs_bind hbody with ⟨called, batch, log, rfl, hbatch, hrest⟩ | ⟨e, -, he⟩
      · obtain ⟨result, hresult, rfl⟩ := runs_extractBatch hbatch rfl
        rcases runs_perform_bind hrest with ⟨answer, log, rfl, hloop⟩ | ⟨e, -, he⟩
        · have hlength : results.length + 1 = (results ++ [result]).length := by simp
          rw [hlength] at hloop
          obtain ⟨hend, hn⟩ := ih (hmigrated.batch result) hloop
          have hreplies : replies ([] ++ (called ++ (Op.sleep, .ok answer) :: log)) =
              result :: replies log := by
            rw [List.nil_append, replies_append, hresult]
            rfl
          rw [hreplies]
          rw [List.append_assoc] at hend
          exact ⟨hend, by rw [List.length_cons, hn]⟩
        · cases he
      · cases he
    · cases he

theorem asks_raising {α : Type} (x : Except Exn α) :
    Asks (fun q => q.isSave = false) (raising x : Script α) := by
  cases x <;> trivial

theorem asks_extractBatch (prompt : Str) (batch : List Value) :
    Asks (fun q => q.isSave = false) (extractBatch prompt batch) := by
  refine Asks.tryCatch (Asks.bind (Asks.perform rfl) fun answer => ?_) fun e => ?_
  · cases answer <;> trivial
  · cases e <;> trivial

theorem asks_migrateBatches (rt : Runtime) (starts : List Nat) (data : List Value) :
    Asks (fun q => q.isSave = false) (migrateBatches rt starts data) := by
  induction starts generalizing data with
  | nil => trivial
  | cons i starts ih =>
    refine (asks_raising _).bind fun prompt => (asks_extractBatch _ _).bind fun batch => ?_
    have hsleep : Asks (fun q => q.isSave = false) (Prog.perform .sleep : Script Answer) :=
      Asks.perform rfl
    exact hsleep.bind fun _ => ih _

theorem forall_of_cleaned {clean : List Value} (h : before.mapM cleaned = .ok clean) :
    clean.length = before.length ∧ ∀ (j : ℕ) p, before[j]? = some p →
      ∃ c, clean[j]? = some c ∧ SameBut p c ∧ specsOf c = none := by
  obtain ⟨hlength, hget⟩ := List.forall₂_iff_get.mp (mapM_ok h)
  refine ⟨hlength.symm, ?_⟩
  intro j p hp
  obtain ⟨hj, rfl⟩ := List.getElem?_eq_some_iff.mp hp
  exact ⟨_, List.getElem?_eq_getElem (hlength ▸ hj), cleaned_ok (hget j hj (hlength ▸ hj))⟩

/-! ## How a run ends -/

/-- The file and the saves at the end of a run. -/
inductive Ending (before : List Value) (log : Log) (r : Except Raised Unit) : Prop
  | unopened : opened log = 0 → onDisk before log = some before → r ≠ .ok () →
      Ending before log r
  | cutOff : opened log = dumped log + 1 → onDisk before log = none → r ≠ .ok () →
      Ending before log r
  | between {clean : List Value} : opened log = 1 → dumped log = 1 →
      before.mapM cleaned = .ok clean → onDisk before log = some clean → r ≠ .ok () →
      Ending before log r
  | through {clean after : List Value} : opened log = 2 → dumped log = 2 →
      before.mapM cleaned = .ok clean → Migrated (replies log) clean after →
      (replies log).length = totalBatches before.length → onDisk before log = some after →
      r = .ok () → Ending before log r

theorem opened_append (log log' : Log) : opened (log ++ log') = opened log + opened log' :=
  List.countP_append

theorem dumped_append (log log' : Log) : dumped (log ++ log') = dumped log + dumped log' :=
  List.countP_append

theorem onDisk_append (log log' : Log) :
    onDisk before (log ++ log') = log'.foldl written (onDisk before log) :=
  List.foldl_append

/-- The last save, after a part of the run that had saved once. -/
theorem ending_of_save {clean after : List Value} {log' : Log} {r : Except Raised Unit}
    (hopened : opened log = 1) (hdumped : dumped log = 1) (hclean : before.mapM cleaned = .ok clean)
    (hdisk : onDisk before log = some clean) (hmigrated : Migrated (replies log) clean after)
    (hlength : (replies log).length = totalBatches before.length)
    (hsave : Runs (save after) log' r) : Ending before (log ++ log') r := by
  rcases runs_save hsave with ⟨e, rfl, rfl⟩ | ⟨a, e, rfl, rfl⟩ | ⟨a, b, rfl, rfl⟩
  · refine .between ?_ ?_ hclean ?_ fun h => by cases h
    · rw [opened_append, hopened]
      rfl
    · rw [dumped_append, hdumped]
      rfl
    · rw [onDisk_append, hdisk]
      rfl
  · refine .cutOff ?_ ?_ fun h => by cases h
    · rw [opened_append, dumped_append, hopened, hdumped]
      rfl
    · rw [onDisk_append]
      rfl
  · have hreplies : replies (log ++ [(Op.openCatalog, .ok a), (.dump after, .ok b)]) =
        replies log := by
      rw [replies_append]
      exact List.append_nil _
    refine @Ending.through _ _ _ clean after ?_ ?_ hclean ?_ ?_ ?_ rfl
    · rw [opened_append, hopened]
      rfl
    · rw [dumped_append, hdumped]
      rfl
    · rw [hreplies]
      exact hmigrated
    · rw [hreplies]
      exact hlength
    · rw [onDisk_append]
      rfl

/-- A run that has saved once, and from there on saves no more. -/
theorem ending_between {clean : List Value} {log' : Log} {r : Except Raised Unit}
    (hopened : opened log = 1) (hdumped : dumped log = 1) (hclean : before.mapM cleaned = .ok clean)
    (hdisk : onDisk before log = some clean) (hlog' : ∀ c ∈ log', c.1.isSave = false)
    (hr : r ≠ .ok ()) : Ending before (log ++ log') r := by
  refine .between ?_ ?_ hclean ?_ hr
  · rw [opened_append, opened_other hlog', hopened]
  · rw [dumped_append, dumped_other hlog', hdumped]
  · rw [onDisk_append, hdisk, foldl_written_other hlog']

theorem migrateCatalog_ends {r : Except Raised Unit} (hrun : Runs (migrateCatalog rt) log r)
    (hserves : ∀ c ∈ log, Serves before c.1 c.2) : Ending before log r := by
  rcases runs_bind hrun with ⟨reading, data, log, rfl, hread, hrun₁⟩ | ⟨e, hread, rfl⟩
  · obtain ⟨⟨ans, rfl⟩, hdata⟩ := runs_readCatalog hread
      fun c hc => hserves c (List.mem_append_left _ hc)
    obtain rfl := hdata _ rfl
    rcases runs_bind hrun₁ with ⟨cleaning, clean, log, rfl, hcleaned, hrun₂⟩ | ⟨e, hcleaned, rfl⟩
    · obtain ⟨rfl, hclean⟩ := runs_raising hcleaned
      have hclean := hclean clean rfl
      rcases runs_bind hrun₂ with ⟨saving, saved, log, rfl, hsave, hrun₃⟩ | ⟨e, hsave, rfl⟩
      · rcases runs_save hsave with ⟨e, -, he⟩ | ⟨a, e, -, he⟩ | ⟨a, b, rfl, -⟩
        · cases he
        · cases he
        rcases runs_perform_bind hrun₃ with ⟨answer, log, rfl, hrun₄⟩ | ⟨e, rfl, rfl⟩
        · have hlength : clean.length = data.length := (forall_of_cleaned hclean).1
          rcases runs_bind hrun₄ with ⟨loop, after, log, rfl, hloop, hlast⟩ | ⟨e, hloop, rfl⟩
          · have hquiet : ∀ c ∈ loop, c.1.isSave = false :=
              hloop.asks (asks_migrateBatches rt _ _)
            have hstarts : batchStarts clean.length =
                (List.range' 0 (totalBatches clean.length)).map (batchSize * ·) := by
              rw [batchStarts, List.range_eq_range']
            rw [hstarts] at hloop
            obtain ⟨hmigrated, hn⟩ := runs_batches _ (.start clean) hloop
            refine @ending_of_save data ([(Op.readCatalog, ans), (Op.openCatalog, .ok a),
              (Op.dump clean, .ok b), (Op.structuredLlm, .ok answer)] ++ loop) clean after _ _ ?_ ?_
              hclean ?_ hmigrated (hlength ▸ hn) hlast
            · rw [opened_append, opened_other hquiet]
              rfl
            · rw [dumped_append, dumped_other hquiet]
              rfl
            · rw [onDisk_append, foldl_written_other hquiet]
              rfl
          · have hquiet : ∀ c ∈ log, c.1.isSave = false :=
              hloop.asks (asks_migrateBatches rt _ _)
            refine @ending_between data [(.readCatalog, ans), (.openCatalog, .ok a),
              (.dump clean, .ok b)] clean ((.structuredLlm, .ok answer) :: log) _ rfl rfl hclean rfl
              ?_ fun h => by cases h
            intro c hc
            rcases List.mem_cons.mp hc with rfl | hc
            · rfl
            · exact hquiet c hc
        · refine @ending_between data [(.readCatalog, ans), (.openCatalog, .ok a),
            (.dump clean, .ok b)] clean [(.structuredLlm, .error e)] _ rfl rfl hclean rfl ?_
            fun h => by cases h
          intro c hc
          rw [List.mem_singleton.mp hc]
          rfl
      · rcases runs_save hsave with ⟨e, rfl, -⟩ | ⟨a, e, rfl, -⟩ | ⟨a, b, -, he⟩
        · exact .unopened rfl rfl fun h => by cases h
        · exact .cutOff rfl rfl fun h => by cases h
        · cases he
    · obtain ⟨rfl, -⟩ := runs_raising hcleaned
      exact .unopened rfl rfl fun h => by cases h
  · obtain ⟨⟨ans, rfl⟩, -⟩ := runs_readCatalog hread hserves
    exact .unopened rfl rfl fun h => by cases h

end

/-! ## What is lost -/

theorem gets_iff {results : List (Option (List ProductSpecs))} {before clean : List Value}
    (h : before.mapM cleaned = .ok clean) (j : ℕ) (products : List ProductSpecs) :
    Gets results clean j products ↔ Gets results before j products := by
  obtain ⟨hlength, hclean⟩ := forall_of_cleaned h
  have hbatch (i t : ℕ) : (∀ p, (batchAt clean i)[t]? = some p → Assignable p) ↔
      ∀ p, (batchAt before i)[t]? = some p → Assignable p := by
    by_cases ht : t < batchSize
    · rw [getElem?_batchAt _ _ ht, getElem?_batchAt _ _ ht]
      cases hp : before[i + t]? with
      | none =>
        rw [List.getElem?_eq_none_iff] at hp
        rw [List.getElem?_eq_none (by omega)]
      | some p =>
        obtain ⟨c, hc, hsame, -⟩ := hclean _ _ hp
        rw [hc]
        simp only [Option.some.injEq, forall_eq']
        exact hsame.assignable
    · simp only [batchAt, List.getElem?_take, if_neg ht]
  simp only [Gets, Reaches, hbatch]

theorem extracted_of_gets {log : Log} {before : List Value} {j : ℕ} {products : List ProductSpecs}
    (h : Gets (replies log) before j products) (p : Value) :
    extracted log j p = some (newSpecs products (idOf p)) := by
  rw [extracted, h.1]
  rfl

/-- **When a migration loses nothing.** Whatever the batches give and wherever
the run stops, every product has its old specs or the ones extracted for it if
and only if the run stopped safely. -/
theorem loses_nothing_iff (rt : Runtime) (before : List Value) (log : Log) (r : Except Raised Unit)
    (hrun : Runs (migrateCatalog rt) log r) (hserves : ∀ c ∈ log, Serves before c.1 c.2) :
    LosesNothing before log ↔ StopsSafely before log := by
  cases migrateCatalog_ends hrun hserves with
  | unopened hopened hdisk =>
    refine iff_of_true ?_ (Or.inr (Or.inl hopened))
    intro j p hp
    exact ⟨before, p, hdisk, hp, Or.inl rfl⟩
  | cutOff hopened hdisk =>
    constructor
    · intro h
      left
      cases before with
      | nil => rfl
      | cons p before =>
        obtain ⟨after, q, hafter, -⟩ := h 0 p rfl
        rw [hdisk] at hafter
        cases hafter
    · rintro (rfl | hsafe | ⟨hsafe, -⟩)
      · intro j p hp
        cases hp
      · omega
      · omega
  | between hopened hdumped hclean hdisk =>
    obtain ⟨-, hcleaned⟩ := forall_of_cleaned hclean
    constructor
    · intro h
      refine Or.inr (Or.inr ⟨hdumped.trans hopened.symm, ?_⟩)
      intro j p hp hspecs
      obtain ⟨after, q, hafter, hq, hkept⟩ := h j p hp
      rw [hdisk] at hafter
      cases hafter
      obtain ⟨c, hc, -, hnone⟩ := hcleaned j p hp
      cases hq.symm.trans hc
      rcases hkept with hkept | ⟨specs, -, hkept⟩
      · exact absurd (hkept.symm.trans hnone) hspecs
      · cases hnone.symm.trans hkept
    · intro hsafe j p hp
      obtain ⟨c, hc, -, hnone⟩ := hcleaned j p hp
      refine ⟨_, c, hdisk, hc, Or.inl ?_⟩
      rcases hsafe with rfl | hsafe | ⟨-, hsafe⟩
      · cases hp
      · omega
      · by_cases hspecs : specsOf p = none
        · rw [hnone, hspecs]
        · have := (hsafe j p hp hspecs).1
          omega
  | through hopened hdumped hclean hmigrated hlength hdisk =>
    obtain ⟨-, hcleaned⟩ := forall_of_cleaned hclean
    constructor
    · intro h
      refine Or.inr (Or.inr ⟨hdumped.trans hopened.symm, ?_⟩)
      intro j p hp hspecs
      refine ⟨hdumped, ?_⟩
      obtain ⟨after, q, hafter, hq, hkept⟩ := h j p hp
      rw [hdisk] at hafter
      cases hafter
      obtain ⟨c, hc, hsame, hnone⟩ := hcleaned j p hp
      obtain ⟨q', hq', -, -, hstopped⟩ := hmigrated.product j c hc
      cases hq.symm.trans hq'
      by_contra hgets
      have hgone : specsOf q = none := by
        rw [hstopped, hnone]
        intro products hget
        exact hgets ⟨products, (gets_iff hclean j products).mp hget⟩
      rcases hkept with hkept | ⟨specs, -, hkept⟩
      · exact hspecs (hkept.symm.trans hgone)
      · cases hgone.symm.trans hkept
    · intro hsafe j p hp
      obtain ⟨c, hc, hsame, hnone⟩ := hcleaned j p hp
      obtain ⟨q, hq, -, hreached, hstopped⟩ := hmigrated.product j c hc
      refine ⟨_, q, hdisk, hq, ?_⟩
      by_cases hgets : ∃ products, Gets (replies log) before j products
      · obtain ⟨products, hget⟩ := hgets
        right
        refine ⟨_, extracted_of_gets hget p, ?_⟩
        rw [hreached products ((gets_iff hclean j products).mpr hget), hsame.id]
      · left
        have hkept : specsOf q = none := by
          rw [hstopped, hnone]
          intro products hget
          exact hgets ⟨products, (gets_iff hclean j products).mp hget⟩
        rw [hkept]
        rcases hsafe with rfl | hsafe | ⟨-, hsafe⟩
        · cases hp
        · omega
        · by_contra hspecs
          exact hgets (hsafe j p hp (Ne.symm hspecs)).2

/-! ## A migration without failures -/

structure WellFormed (p : Value) : Prop where
  id : ∃ id, idOf p = some (.str id)
  content : (fieldOf p "page_content").isSome = true
  metadata : (metadataOf p).isSome = true

/-- Every call is answered, and the model replies to every batch. -/
def Succeeds (before : List Value) : Op → Except Raised Answer → Prop
  | .readCatalog, ans => ans = .ok (.catalog before)
  | .invoke _, ans => ∃ products, ans = .ok (.result (some products))
  | _, ans => ∃ answer, ans = .ok answer

section
variable {rt : Runtime} {before data : List Value} {log : Log}

theorem Succeeds.serves {q : Op} {ans : Except Raised Answer} (h : Succeeds before q ans) :
    Serves before q ans := by
  cases q with
  | readCatalog =>
    obtain rfl := h
    exact rfl
  | invoke =>
    obtain ⟨products, rfl⟩ := h
    exact ⟨_, rfl⟩
  | openCatalog | dump | structuredLlm | sleep => cases ans <;> trivial

theorem WellFormed.of_same {p q : Value} (h : WellFormed p) (hsame : SameBut p q) :
    WellFormed q where
  id := by
    rw [hsame.id]
    exact h.id
  content := by
    rw [hsame.fields _ (by decide)]
    exact h.content
  metadata := by
    rw [hsame.isSome]
    exact h.metadata

theorem WellFormed.assignable {p : Value} (h : WellFormed p) : Assignable p := by
  obtain ⟨id, hid⟩ := h.id
  refine ⟨?_, h.metadata⟩
  rw [hid]
  rfl

theorem WellFormed.cleaned {p : Value} (h : WellFormed p) : ∃ c, cleaned p = .ok c := by
  obtain ⟨fields, hfields⟩ := Option.isSome_iff_exists.mp h.metadata
  cases p with
  | dict kvs =>
    simp only [metadataOf, fieldOf] at hfields
    split at hfields
    · rename_i found hfound
      have hvalue : Dict.getD kvs "metadata" (.dict []) = .dict found := by
        rw [Dict.getD, hfound]
        rfl
      simp only [Db.cleaned, hvalue, hasSpecs, Bind.bind, Except.bind]
      split
      · exact ⟨_, rfl⟩
      · exact ⟨_, rfl⟩
    · cases hfields
  | none | bool | int | float | str | list | date => cases hfields

theorem WellFormed.prompt {p : Value} (h : WellFormed p) (rt : Runtime) :
    ∃ text, productPrompt rt p = .ok text := by
  obtain ⟨id, hid⟩ := h.id
  obtain ⟨content, hcontent⟩ := Option.isSome_iff_exists.mp h.content
  exact ⟨_, by rw [productPrompt, subscript_ok.mpr hid, subscript_ok.mpr hcontent]; rfl⟩

theorem mem_of_mem_batchAt {i : ℕ} {p : Value} (h : p ∈ batchAt data i) : p ∈ data :=
  List.mem_of_mem_drop (List.mem_of_mem_take h)

theorem wellFormed_mapResults (h : ∀ p ∈ data, WellFormed p) (products : List ProductSpecs) :
    ∀ p ∈ mapResults (some products) data, WellFormed p := by
  intro q hq
  obtain ⟨t, ht, rfl⟩ := List.getElem_of_mem hq
  have hlength := length_mapResults (some products) data
  obtain ⟨q, hq, hsame, -⟩ :=
    getElem?_assignAll products (List.getElem?_eq_getElem (hlength ▸ ht))
  have hsome : (mapResults (some products) data)[t]? = some q := hq
  rw [List.getElem?_eq_getElem ht, Option.some.injEq] at hsome
  rw [hsome]
  exact (h _ (List.getElem_mem _)).of_same hsame

theorem wellFormed_withBatch (h : ∀ p ∈ data, WellFormed p) {batch : List Value} (i : ℕ)
    (hbatch : ∀ p ∈ batch, WellFormed p) : ∀ p ∈ withBatch data i batch, WellFormed p := by
  intro p hp
  simp only [withBatch, List.mem_append] at hp
  rcases hp with (hp | hp) | hp
  · exact h p (List.mem_of_mem_take hp)
  · exact hbatch p hp
  · exact h p (List.mem_of_mem_drop hp)

theorem must_raising {α : Type} {x : Except Exn α} {a : α} (h : x = .ok a) :
    Must (Succeeds before) (fun r => r = .ok a) (raising x) := by
  rw [h]
  exact .done rfl

theorem must_perform (q : Op) (h : ∀ ans, Succeeds before q ans → ∃ answer, ans = .ok answer) :
    Must (Succeeds before) (fun r => ∃ answer, r = .ok answer) (Prog.perform q) :=
  .perform h

theorem must_extractBatch (prompt : Str) (batch : List Value) :
    Must (Succeeds before) (fun r => ∃ products, r = .ok (mapResults (some products) batch))
      (extractBatch prompt batch) := by
  refine .call fun ans hans => ?_
  obtain ⟨products, rfl⟩ := hans
  exact .done ⟨products, rfl⟩

theorem must_migrateBatches (rt : Runtime) (starts : List ℕ) (h : ∀ p ∈ data, WellFormed p) :
    Must (Succeeds before) (fun r => ∃ after, r = .ok after) (migrateBatches rt starts data) := by
  induction starts generalizing data with
  | nil => exact .done ⟨_, rfl⟩
  | cons i starts ih =>
    have hbatch : ∀ p ∈ batchAt data i, WellFormed p := fun p hp => h p (mem_of_mem_batchAt hp)
    obtain ⟨texts, htexts⟩ := exists_mapM_ok fun p hp => (hbatch p hp).prompt rt
    have hprompt : batchPrompt rt (batchAt data i) = .ok (promptIntro ++ texts.flatten) := by
      rw [batchPrompt, htexts]
      rfl
    refine (must_raising hprompt).bind (fun prompt _ => ?_) fun e he => by cases he
    refine (must_extractBatch prompt _).bind (fun batch hextracted => ?_)
      fun e he => by obtain ⟨_, he⟩ := he; cases he
    obtain ⟨products, hproducts⟩ := hextracted
    cases hproducts
    refine (must_perform .sleep fun ans hans => hans).bind (fun answer _ => ?_)
      fun e he => by obtain ⟨_, he⟩ := he; cases he
    exact ih (wellFormed_withBatch h i (wellFormed_mapResults hbatch products))

theorem must_save (data : List Value) :
    Must (Succeeds before) (fun r => r = .ok ()) (save data) := by
  refine (must_perform .openCatalog fun ans hans => hans).bind (fun _ _ => ?_)
    fun e he => by obtain ⟨_, he⟩ := he; cases he
  refine (must_perform (.dump data) fun ans hans => hans).bind (fun _ _ => .done rfl)
    fun e he => by obtain ⟨_, he⟩ := he; cases he

theorem must_migrateCatalog (rt : Runtime) (h : ∀ p ∈ before, WellFormed p) :
    Must (Succeeds before) (fun r => r = .ok ()) (migrateCatalog rt) := by
  have hread : Must (Succeeds before) (fun r => r = .ok before) readCatalog := by
    refine .call fun ans hans => ?_
    obtain rfl := hans
    exact .done rfl
  refine hread.bind (fun data hdata => ?_) fun e he => by cases he
  cases hdata
  obtain ⟨clean, hclean⟩ := exists_mapM_ok fun p hp => (h p hp).cleaned
  refine (must_raising hclean).bind (fun data hdata => ?_) fun e he => by cases he
  cases hdata
  refine (must_save clean).bind (fun _ _ => ?_) fun e he => by cases he
  refine (must_perform .structuredLlm fun ans hans => hans).bind (fun _ _ => ?_)
    fun e he => by obtain ⟨_, he⟩ := he; cases he
  have hwell : ∀ c ∈ clean, WellFormed c := by
    intro c hc
    obtain ⟨j, hj, rfl⟩ := List.getElem_of_mem hc
    obtain ⟨hlength, hcleaned⟩ := forall_of_cleaned hclean
    obtain ⟨c, hc, hsame, -⟩ := hcleaned j _ (List.getElem?_eq_getElem (hlength ▸ hj))
    rw [List.getElem?_eq_getElem hj, Option.some.injEq] at hc
    rw [hc]
    exact (h _ (List.getElem_mem _)).of_same hsame
  refine (must_migrateBatches rt _ hwell).bind (fun after _ => must_save after)
    fun e he => by obtain ⟨_, he⟩ := he; cases he

theorem exists_products {result : Option (List ProductSpecs)}
    (hlog : ∀ c ∈ log, Succeeds before c.1 c.2) (h : result ∈ replies log) :
    ∃ products, result = some products := by
  rw [replies, List.mem_filterMap] at h
  obtain ⟨⟨q, ans⟩, hc, hreply⟩ := h
  cases q with
  | invoke prompt =>
    obtain ⟨products, hans⟩ : ∃ products, ans = .ok (.result (some products)) := hlog _ hc
    subst hans
    cases hreply
    exact ⟨products, rfl⟩
  | readCatalog | openCatalog | dump | structuredLlm | sleep => cases hreply

end

/-- **Specs go to their products.** A migration of well-formed products whose
batches all get a reply returns, and the file has the same products with the
same fields, but for the specs: these are the fields of the last item of its
batch's reply that has the product's id, or none. -/
theorem specs_assigned (rt : Runtime) (before : List Value) (log : Log) (r : Except Raised Unit)
    (hwell : ∀ p ∈ before, WellFormed p) (hrun : Runs (migrateCatalog rt) log r)
    (hlog : ∀ c ∈ log, Succeeds before c.1 c.2) :
    r = .ok () ∧ ∃ after, onDisk before log = some after ∧ after.length = before.length ∧
      ∀ j p, before[j]? = some p → ∃ q products, after[j]? = some q ∧
        (replies log)[j / batchSize]? = some (some products) ∧ SameBut p q ∧
        specsOf q = some (.dict (newSpecs products (idOf p))) := by
  have hreturns := (must_migrateCatalog rt hwell).runs hrun hlog
  refine ⟨hreturns, ?_⟩
  cases migrateCatalog_ends hrun fun c hc => (hlog c hc).serves with
  | unopened _ _ hr => exact absurd hreturns hr
  | cutOff _ _ hr => exact absurd hreturns hr
  | between _ _ _ _ hr => exact absurd hreturns hr
  | through _ _ hclean hmigrated hbatches hdisk =>
    obtain ⟨hlength, hcleaned⟩ := forall_of_cleaned hclean
    refine ⟨_, hdisk, hmigrated.length.trans hlength, ?_⟩
    intro j p hp
    have hj := (List.getElem?_eq_some_iff.mp hp).1
    have hbatch : j / batchSize < (replies log).length := by
      rw [hbatches]
      unfold totalBatches batchSize
      omega
    obtain ⟨products, hproducts⟩ := exists_products hlog (List.getElem_mem hbatch)
    have hreply : (replies log)[j / batchSize]? = some (some products) := by
      rw [List.getElem?_eq_getElem hbatch, hproducts]
    have hreaches : Reaches (batchAt before (batchSize * (j / batchSize))) (j % batchSize) :=
      fun t _ q hq => (hwell q (mem_of_mem_batchAt (List.mem_of_getElem? hq))).assignable
    obtain ⟨c, hc, hsame, -⟩ := hcleaned j p hp
    obtain ⟨q, hq, hbut, hspecs, -⟩ := hmigrated.product j c hc
    refine ⟨q, products, hq, hreply, hsame.trans hbut, ?_⟩
    rw [← hsame.id]
    exact hspecs products ((gets_iff hclean j products).mpr ⟨hreply, hreaches⟩)

/-! ## A laptop -/

def laptop : Value := .dict
  [("product_id", .str "P-1"), ("page_content", .str "A laptop with 16 GB."),
    ("metadata", .dict [("name", .str "Laptop"), ("specs", .dict [("ram_gb", .str "16")])])]

/-- Every call is answered, the model's as `reply` says. -/
def answerLaptop (reply : Except Raised Answer) : ℕ → Op → Except Raised Answer
  | _, .readCatalog => .ok (.catalog [laptop])
  | _, .invoke _ => reply
  | _, _ => .ok .done

def migrateLaptop (reply : Except Raised Answer) : Log × Except Raised Unit :=
  Prog.play (answerLaptop reply) (migrateCatalog .ascii)

theorem migrateLaptop_runs (reply : Except Raised Answer) :
    Runs (migrateCatalog .ascii) (migrateLaptop reply).1 (migrateLaptop reply).2 :=
  runs_play _ _

theorem migrateLaptop_serves {reply : Except Raised Answer}
    (h : ∀ p, Serves [laptop] (.invoke p) reply) :
    ∀ c ∈ (migrateLaptop reply).1, Serves [laptop] c.1 c.2 := by
  rintro ⟨q, ans⟩ hc
  obtain ⟨n, rfl⟩ : ∃ n, ans = answerLaptop reply n q := mem_play hc
  cases q with
  | invoke p => exact h p
  | readCatalog => exact rfl
  | openCatalog | dump | structuredLlm | sleep => trivial

def outOfQuota : Except Raised Answer := .error (.exception ⟨"Error code: 429"⟩)

/-- The call to the model fails, and the file is saved without the old specs. -/
theorem failed_batch_loses_specs :
    Runs (migrateCatalog .ascii) (migrateLaptop outOfQuota).1 (migrateLaptop outOfQuota).2 ∧
    (∀ c ∈ (migrateLaptop outOfQuota).1, Serves [laptop] c.1 c.2) ∧
    ¬ LosesNothing [laptop] (migrateLaptop outOfQuota).1 := by
  refine ⟨migrateLaptop_runs _, migrateLaptop_serves fun _ => trivial, ?_⟩
  intro h
  obtain ⟨after, q, hafter, hq, hkept⟩ := h 0 laptop rfl
  cases hafter
  cases hq
  rcases hkept with hkept | ⟨specs, hspecs, -⟩
  · cases hkept
  · cases hspecs

def sixteenGb : ProductSpecs := { productId := "P-1", ramGb := some "16 GB" }

def repliedBatch : Except Raised Answer := .ok (.result (some [sixteenGb]))

theorem loses_nothing_iff_laptop : LosesNothing [laptop] (migrateLaptop repliedBatch).1 := by
  refine (loses_nothing_iff .ascii [laptop] (migrateLaptop repliedBatch).1 _ (migrateLaptop_runs _)
    (migrateLaptop_serves fun _ => ⟨_, rfl⟩)).mpr (Or.inr (Or.inr ⟨rfl, ?_⟩))
  intro j p hp _
  refine ⟨rfl, [sixteenGb], ?_⟩
  obtain ⟨hj, -⟩ := List.getElem?_eq_some_iff.mp hp
  obtain rfl : j = 0 := by simpa using hj
  refine ⟨rfl, ?_⟩
  intro t ht q hq
  obtain rfl : t = 0 := Nat.le_zero.mp ht
  cases hq
  exact ⟨rfl, rfl⟩

theorem specs_assigned_laptop :
    (migrateLaptop repliedBatch).2 = .ok () ∧ ∃ after,
      onDisk [laptop] (migrateLaptop repliedBatch).1 = some after ∧
      after.length = [laptop].length ∧
      ∀ j p, [laptop][j]? = some p → ∃ q products, after[j]? = some q ∧
        (replies (migrateLaptop repliedBatch).1)[j / batchSize]? = some (some products) ∧
        SameBut p q ∧ specsOf q = some (.dict (newSpecs products (idOf p))) := by
  refine specs_assigned .ascii [laptop] _ _ ?_ (migrateLaptop_runs _) ?_
  · intro p hp
    rw [List.mem_singleton.mp hp]
    exact ⟨⟨_, rfl⟩, rfl, rfl⟩
  · rintro ⟨q, ans⟩ hc
    obtain ⟨n, rfl⟩ : ∃ n, ans = answerLaptop repliedBatch n q := mem_play hc
    cases q with
    | invoke p => exact ⟨_, rfl⟩
    | readCatalog => exact rfl
    | openCatalog | dump | structuredLlm | sleep => exact ⟨_, rfl⟩

end TechMart.Db
