import TechMart.Admin.Shadow

/-!
# Admins editing one table

Each admin loads the table, edits the page and saves it. `History` lists the
versions the live table went through, each with the save that made it and the
version its page was loaded from; `last_save_wins` reads two admins off it.
-/

namespace TechMart.Admin

open Python Sql

/-- An admin at the page: what the edits make of the page as it was loaded. -/
structure Client where
  edit : PageData → List (Dict Value)
  encode : Value → Except Exn Value

/-- The save a client sends from the table it loaded. -/
def saveOf (t : AdminTable) (c : Client) (loaded : Table) : SaveCall :=
  ⟨⟨t.name, c.edit (pageData loaded)⟩, c.encode⟩

/-- Load, edit, save. -/
def session (rt : Runtime) (t : AdminTable) (c : Client) : Handler Unit := do
  let page ← getData t.name
  saveData rt c.encode ⟨t.name, c.edit page⟩

/-- A version of the live table: the save that made it, when (its place in the
log), and its content. -/
structure Version (ι : Type) where
  author : ι
  time : ℕ
  table : Table

/-- The newest of the versions, or the initial table. -/
def latest {ι : Type} (initial : Table) (versions : List (Version ι)) : Table :=
  (versions.getLast?.map Version.table).getD initial

/-- The version a load at that time was answered with. -/
def versionAt {ι : Type} (initial : Table) (versions : List (Version ι)) (time : ℕ) : Table :=
  latest initial (versions.filter fun v => v.time < time)

section
variable {ι : Type} {initial : Table} {versions : List (Version ι)}

theorem latest_append (v : Version ι) : latest initial (versions ++ [v]) = v.table := by
  simp [latest]

theorem versionAt_end {time : ℕ} (h : ∀ v ∈ versions, v.time < time) :
    versionAt initial versions time = latest initial versions := by
  rw [versionAt, List.filter_eq_self.mpr (by simpa using h)]

/-- A later version is none that an earlier load could see. -/
theorem versionAt_append {v : Version ι} {time : ℕ} (h : time ≤ v.time) :
    versionAt initial (versions ++ [v]) time = versionAt initial versions time := by
  simp [versionAt, List.filter_append, h]

end

/-- Where a client stands; `saving` remembers the load, its time and answer. -/
inductive Stage where
  | opening
  | loading
  | saving (time : ℕ) (loaded : Table)
  | failed

/-- The statements that replace the live table. -/
def Replaces (t : AdminTable) (q : Stmt) : Prop :=
  q = .truncate t.name ∨ q = .exchange t.name t.tempName

section
variable {ι : Type} (rt : Runtime) (ch : ClickHouse) (clients : ι → Client) (t : AdminTable)

def sessions (i : ι) : Handler Unit := session rt t (clients i)

/-- The session once its first statement was answered. -/
def loadRest (c : Client) : Handler Unit :=
  .call (.selectAll t.name) (Prog.andThen fun loaded =>
    saveData rt (saveOf t c loaded).encode (saveOf t c loaded).data)

def Stage.At (c : Client) (prog : Handler Unit) : Stage → Prop
  | .opening => prog = session rt t c
  | .loading => prog = loadRest rt t c
  | .saving _ _ => True
  | .failed => ∃ e, prog = .raise e

/-- The save a client will have sent, given what it loads. -/
def calls (pages : ι → Table) (i : ι) : SaveCall := saveOf t (clients i) (pages i)

/-- The client's save by itself: not begun until the page was loaded. -/
def saveProg (pages : ι → Table) (stage : ι → Stage) (progs : ι → Handler Unit) (i : ι) :
    Handler Unit :=
  match stage i with
  | .saving _ _ => progs i
  | _ => handlers rt (calls clients t pages) i

def PagesAgree (stage : ι → Stage) (pages : ι → Table) : Prop :=
  ∀ i a loaded, stage i = .saving a loaded → pages i = loaded

theorem session_eq (c : Client) :
    session rt t c = .call .connect (Prog.andThen fun _ => loadRest rt t c) := by
  simp only [session, getData, Prog.perform_bind, AdminTable.ofName?_name, Prog.call_bind]
  congr 1
  funext ans
  cases ans with
  | error e => rfl
  | ok a =>
    simp only [Prog.andThen, Prog.call_bind, loadRest]
    congr 1
    funext ans
    cases ans <;> rfl

/-- What is left of a save that has replaced the live table. -/
def Replaced (prog : Handler Unit) : Prop :=
  (∃ u, prog = Phase.dropRest u) ∨ prog = .done () ∨ ∃ e, prog = .raise e

/-- The live table is the newest version; each version is one client's save of
the version that client had loaded. -/
structure History (initial : Table) (p : Saves ι) (stage : ι → Stage)
    (versions : List (Version ι)) : Prop where
  loaded : ∀ i a loaded, stage i = .saving a loaded →
    p.log[a]? = some (i, .selectAll t.name, .ok loaded) ∧ loaded = versionAt initial versions a
  live : p.store t.name = some (latest initial versions)
  wrote : ∀ v ∈ versions, ∃ q ans, p.log[v.time]? = some (v.author, q, ans) ∧ Replaces t q
  ordered : versions.Pairwise fun v w => v.time < w.time
  built : ∀ v ∈ versions, ∃ a loaded, stage v.author = .saving a loaded ∧ a < v.time ∧
    HoldsSave rt ch (fun _ => saveOf t (clients v.author) loaded) p.log v.author t v.table
  single : (versions.map Version.author).Nodup
  once : ∀ v ∈ versions, Replaced (p.progs v.author)
  done : ∀ i, (p.progs i = .done () ∨ ∃ u, p.progs i = Phase.dropRest u) →
    ∃ v ∈ versions, v.author = i

variable {rt ch clients t} {db₀ : Database}

theorem History.time_lt {initial : Table} {p : Saves ι} {stage : ι → Stage}
    {versions : List (Version ι)} (inv : History rt ch clients t initial p stage versions)
    {v : Version ι} (hv : v ∈ versions) : v.time < p.log.length := by
  obtain ⟨q, ans, hlog, -⟩ := inv.wrote v hv
  exact (List.getElem?_eq_some_iff.mp hlog).1

theorem getElem?_append_some {α : Type} {xs ys : List α} {n : ℕ} {x : α} (h : xs[n]? = some x) :
    (xs ++ ys)[n]? = some x := by
  rw [List.getElem?_append_left (List.getElem?_eq_some_iff.mp h).1, h]

theorem history_start {initial : Table} (hinitial : db₀ t.name = some initial) :
    History rt ch clients t initial ⟨db₀, sessions rt clients t, []⟩ (fun _ => .opening) [] where
  loaded := nofun
  live := hinitial
  wrote := nofun
  ordered := .nil
  built := nofun
  single := .nil
  once := nofun
  done := by
    intro i h
    simp only [sessions, session_eq, Phase.dropRest, reduceCtorEq, Prog.call.injEq, false_and,
      exists_false, or_self] at h

/-- A save on the way to its end has the live table replaced in one step. -/
theorem phase_replaced {call : SaveCall} {ph : Phase} {q : Stmt} (hq : ph.stmt = some q)
    (hw : t.name ∈ q.writes) (ans : Except Exn Table) :
    Replaces t q ∧ ¬ Replaced (ph.prog rt call.encode call.data) ∧
      Replaced ((ph.after rt call.encode call.data ans).prog rt call.encode call.data) := by
  rcases live_written hq hw with rfl | ⟨rows, rfl⟩
  · cases hq
    refine ⟨Or.inl rfl, ?_, ?_⟩
    · simp [Replaced, Phase.prog, Phase.dropRest]
    · cases ans with
      | ok a => exact Or.inr (Or.inl rfl)
      | error e => exact Or.inr (Or.inr ⟨e, rfl⟩)
  · cases hq
    refine ⟨Or.inr rfl, ?_, ?_⟩
    · simp [Replaced, Phase.prog, Phase.swapRest, Phase.dropRest]
    · cases ans with
      | ok a => exact Or.inl ⟨t, rfl⟩
      | error e => exact Or.inr (Or.inr ⟨e, rfl⟩)

theorem replaced_step {q : Stmt} {k : Except Exn Table → Handler Unit}
    (h : Replaced (.call q k)) (ans : Except Exn Table) : Replaced (k ans) := by
  rcases h with ⟨u, h⟩ | h | ⟨e, h⟩
  · cases h
    cases ans with
    | ok a => exact Or.inr (Or.inl rfl)
    | error e => exact Or.inr (Or.inr ⟨e, rfl⟩)
  · cases h
  · cases h

/-- A save ends, or comes to its last statement, only by replacing the table. -/
theorem ends_by_replacing {call : SaveCall} (hname : call.data.table = t.name) {i : ι}
    {log : List (ι × Stmt × Except Exn Table)} {ph : Phase} {q : Stmt} {ans : Except Exn Table}
    (hq : ph.stmt = some q) (hknows : PhaseKnows rt (fun _ : ι => call) log i ph)
    (h : (ph.after rt call.encode call.data ans).prog rt call.encode call.data = .done () ∨
      ∃ u, (ph.after rt call.encode call.data ans).prog rt call.encode call.data =
        Phase.dropRest u) :
    (∃ a, ans = .ok a) ∧
      (t.name ∈ q.writes ∨ ∃ u, ph.prog rt call.encode call.data = Phase.dropRest u) := by
  have htable {u : AdminTable} {rows : List (Dict Value)}
      (hprepared : Prepared rt (fun _ : ι => call) log i u rows) : u = t := by
    have := hprepared.1
    rw [hname, AdminTable.ofName?_name] at this
    exact (Option.some.inj this).symm
  cases ans with
  | error e => simp [Phase.after, Phase.prog, Phase.dropRest] at h
  | ok a =>
    refine ⟨⟨a, rfl⟩, ?_⟩
    cases ph with
    | connecting =>
      simp only [Phase.after, Phase.next] at h
      split at h <;> simp [Phase.prog, Phase.dropRest] at h
    | lookingUp u =>
      simp only [Phase.after, Phase.next, Phase.afterLookup] at h
      split at h
      · simp [Phase.prog, Phase.dropRest] at h
      · simp [Phase.prog, Phase.dropRest] at h
      · simp [Phase.prog_creating, Phase.dropRest] at h
    | truncating u =>
      cases htable hknows
      cases hq
      exact Or.inl List.mem_cons_self
    | creating u rows => simp [Phase.after, Phase.next, Phase.prog, Phase.fillRest, Phase.dropRest] at h
    | filling u rows => simp [Phase.after, Phase.next, Phase.prog, Phase.swapRest, Phase.dropRest] at h
    | swapping u rows =>
      cases htable hknows
      cases hq
      exact Or.inl List.mem_cons_self
    | dropping u => exact Or.inr ⟨u, rfl⟩
    | returned | raised => cases hq

variable (rt ch clients t) [DecidableEq ι]

/-- Seen by themselves, the saves are saves of the pages that were loaded. -/
structure Sessions (db₀ : Database) (p : Saves ι) (stage : ι → Stage) : Prop where
  program : ∀ i, (stage i).At rt t (clients i) (p.progs i)
  saves : ∀ pages, PagesAgree stage pages → ∃ log, log ⊆ p.log ∧
    Pool.Reachable (Serve ch) db₀ (handlers rt (calls clients t pages))
      ⟨p.store, saveProg rt clients t pages stage p.progs, log⟩

variable {rt ch clients t}

theorem sessions_start : Sessions rt ch clients t db₀ ⟨db₀, sessions rt clients t, []⟩
    fun _ => .opening where
  program := fun _ => rfl
  saves := fun _ _ => ⟨[], List.Subset.refl _, .start⟩

/-- A statement of a load reads only. -/
theorem serve_read {db db' : Database} {q : Stmt} {ans : Except Exn Table}
    (hq : q = .connect ∨ q = .selectAll t.name) (h : Serve ch db q ans db') : db' = db := by
  rcases serve_effect h with ⟨rfl, -⟩ | ⟨a, hexec⟩
  · rfl
  · rcases hq with rfl | rfl
    · cases hexec
      rfl
    · simp only [exec] at hexec
      split at hexec <;> cases hexec
      rfl

/-- A step of a load moves no save. -/
theorem saves_of_load {p : Saves ι} {stage : ι → Stage}
    (inv : Sessions rt ch clients t db₀ p stage) {i : ι} (hi : ∀ a loaded, stage i ≠ .saving a loaded)
    {st : Stage} {prog : Handler Unit} {entry : ι × Stmt × Except Exn Table}
    (hst : (∀ a loaded, st ≠ .saving a loaded) ∨ ∃ a loaded, st = .saving a loaded ∧
      prog = handlers rt (fun _ => saveOf t (clients i) loaded) i) {pages : ι → Table}
    (hpages : PagesAgree (Function.update stage i st) pages) :
    ∃ log, log ⊆ p.log ++ [entry] ∧
      Pool.Reachable (Serve ch) db₀ (handlers rt (calls clients t pages))
        ⟨p.store, saveProg rt clients t pages (Function.update stage i st)
          (Function.update p.progs i prog), log⟩ := by
  have hagree : PagesAgree stage pages := by
    intro j a loaded hj
    have hji : j ≠ i := by
      rintro rfl
      exact hi a loaded hj
    exact hpages j a loaded (by rw [Function.update_of_ne hji, hj])
  obtain ⟨log, hlog, hreach⟩ := inv.saves pages hagree
  refine ⟨log, List.Subset.trans hlog (List.subset_append_left _ _), ?_⟩
  have hsame : saveProg rt clients t pages (Function.update stage i st)
      (Function.update p.progs i prog) = saveProg rt clients t pages stage p.progs := by
    funext j
    by_cases hji : j = i
    · subst hji
      have hbefore : saveProg rt clients t pages stage p.progs j =
          handlers rt (calls clients t pages) j := by
        unfold saveProg
        split
        · rename_i a loaded hj
          exact absurd hj (hi a loaded)
        · rfl
      rw [hbefore]
      rcases hst with hst | ⟨a, loaded, rfl, rfl⟩
      · unfold saveProg
        rw [Function.update_self]
        split
        · exact absurd rfl (hst _ _)
        · rfl
      · have := hpages j a loaded (Function.update_self ..)
        simp only [saveProg, Function.update_self, handlers, calls, this]
    · simp only [saveProg, Function.update_of_ne hji]
  rw [hsame]
  exact hreach

/-- What one step does to the stage of the client that takes it. -/
inductive Moves (t : AdminTable) (c : Client) (time : ℕ) (db : Database) (rt : Runtime) :
    Stage → Stmt → Except Exn Table → Database → Stage → Handler Unit → Prop
  | opened (a : Table) : Moves t c time db rt .opening .connect (.ok a) db .loading (loadRest rt t c)
  | read (loaded : Table) : db t.name = some loaded →
      Moves t c time db rt .loading (.selectAll t.name) (.ok loaded) db (.saving time loaded)
        (saveData rt c.encode ⟨t.name, c.edit (pageData loaded)⟩)
  | refused (st : Stage) (q : Stmt) (e : Exn) : (∀ a loaded, st ≠ .saving a loaded) →
      Moves t c time db rt st q (.error e) db .failed (.raise e)
  | saved (a : ℕ) (loaded : Table) (q : Stmt) (ans : Except Exn Table) (db' : Database)
      (prog : Handler Unit) :
      Moves t c time db rt (.saving a loaded) q ans db' (.saving a loaded) prog

theorem moves_of_step {p : Saves ι} {stage : ι → Stage}
    (inv : Sessions rt ch clients t db₀ p stage) {i : ι} {q : Stmt}
    {k : Except Exn Table → Handler Unit} (hcall : p.progs i = .call q k) {ans : Except Exn Table}
    {db' : Database} (hs : Serve ch p.store q ans db') :
    ∃ st, Moves t (clients i) p.log.length p.store rt (stage i) q ans db' st (k ans) := by
  have hat := inv.program i
  cases hstage : stage i with
  | opening =>
    rw [hstage, Stage.At, hcall, session_eq] at hat
    cases hat
    have hsame := serve_read (t := t) (Or.inl rfl) hs
    subst hsame
    cases ans with
    | ok a => exact ⟨_, .opened a⟩
    | error e => exact ⟨_, .refused _ _ e (by simp)⟩
  | loading =>
    rw [hstage, Stage.At, hcall, loadRest] at hat
    cases hat
    have hsame := serve_read (t := t) (Or.inr rfl) hs
    subst hsame
    cases ans with
    | ok a =>
      refine ⟨_, .read a ?_⟩
      cases hs with
      | answered hexec =>
        simp only [exec] at hexec
        split at hexec <;> cases hexec
        assumption
    | error e => exact ⟨_, .refused _ _ e (by simp)⟩
  | saving a loaded => exact ⟨_, .saved a loaded q ans db' _⟩
  | failed =>
    rw [hstage, Stage.At, hcall] at hat
    obtain ⟨e, he⟩ := hat
    cases he

theorem sessions_step {p : Saves ι} {stage : ι → Stage}
    (inv : Sessions rt ch clients t db₀ p stage) {i : ι} {q : Stmt}
    {k : Except Exn Table → Handler Unit} (hcall : p.progs i = .call q k) {ans : Except Exn Table}
    {db' : Database} (hs : Serve ch p.store q ans db') {st : Stage}
    (hmoves : Moves t (clients i) p.log.length p.store rt (stage i) q ans db' st (k ans)) :
    Sessions rt ch clients t db₀
      ⟨db', Function.update p.progs i (k ans), p.log ++ [(i, q, ans)]⟩
      (Function.update stage i st) := by
  refine ⟨fun j => ?_, fun pages hpages => ?_⟩
  · by_cases hji : j = i
    · subst hji
      simp only [Function.update_self]
      generalize stage j = before at hmoves
      generalize k ans = prog at hmoves ⊢
      cases hmoves with
      | opened => exact rfl
      | read => trivial
      | refused _ _ e => exact ⟨e, rfl⟩
      | saved => trivial
    · simp only [Function.update_of_ne hji]
      exact inv.program j
  · generalize hstage : stage i = before at hmoves
    generalize hprog : k ans = prog at hmoves ⊢
    cases hmoves with
    | opened => exact saves_of_load inv (by simp [hstage]) (Or.inl (by simp)) hpages
    | read loaded => exact saves_of_load inv (by simp [hstage]) (Or.inr ⟨_, loaded, rfl, rfl⟩) hpages
    | refused _ _ e hst => exact saves_of_load inv (hstage ▸ hst) (Or.inl (by simp)) hpages
    | saved a loaded =>
      have hupdate : Function.update stage i (.saving a loaded) = stage := by
        rw [← hstage, Function.update_eq_self]
      rw [hupdate] at hpages ⊢
      obtain ⟨log, hlog, hreach⟩ := inv.saves pages hpages
      refine ⟨log ++ [(i, q, ans)], ?_, ?_⟩
      · exact List.append_subset.mpr ⟨List.Subset.trans hlog (List.subset_append_left _ _),
          List.subset_append_right _ _⟩
      · have hi : saveProg rt clients t pages stage p.progs i = .call q k := by
          simp only [saveProg, hstage, hcall]
        have hstep := hreach.next (.serve hi hs)
        rw [hprog] at hstep
        have hsame : saveProg rt clients t pages stage (Function.update p.progs i prog) =
            Function.update (saveProg rt clients t pages stage p.progs) i prog := by
          funext j
          by_cases hji : j = i
          · subst hji
            simp only [saveProg, hstage, Function.update_self]
          · simp only [saveProg, Function.update_of_ne hji]
        rw [hsame]
        exact hstep

/-- A step that leaves the live table alone makes no version. -/
theorem history_quiet {initial : Table} {p : Saves ι} {stage : ι → Stage}
    {versions : List (Version ι)} (inv : History rt ch clients t initial p stage versions)
    {i : ι} {entry : ι × Stmt × Except Exn Table} {db' : Database} {st : Stage}
    {prog : Handler Unit} (hlive : db' t.name = p.store t.name)
    (hloaded : ∀ a loaded, st = .saving a loaded →
      (p.log ++ [entry])[a]? = some (i, .selectAll t.name, .ok loaded) ∧
      loaded = versionAt initial versions a)
    (hkeep : ∀ a loaded, stage i = .saving a loaded → st = .saving a loaded)
    (honce : Replaced (p.progs i) → Replaced prog)
    (hdone : prog = .done () ∨ (∃ u, prog = Phase.dropRest u) → ∃ v ∈ versions, v.author = i) :
    History rt ch clients t initial ⟨db', Function.update p.progs i prog, p.log ++ [entry]⟩
      (Function.update stage i st) versions where
  loaded := by
    intro j a loaded hj
    by_cases hji : j = i
    · subst hji
      rw [Function.update_self] at hj
      exact hloaded a loaded hj
    · rw [Function.update_of_ne hji] at hj
      obtain ⟨hlog, hversion⟩ := inv.loaded j a loaded hj
      exact ⟨getElem?_append_some hlog, hversion⟩
  live := hlive.trans inv.live
  wrote := by
    intro v hv
    obtain ⟨q, ans, hlog, hq⟩ := inv.wrote v hv
    exact ⟨q, ans, getElem?_append_some hlog, hq⟩
  ordered := inv.ordered
  built := by
    intro v hv
    obtain ⟨a, loaded, hstage, hlt, hholds⟩ := inv.built v hv
    refine ⟨a, loaded, ?_, hlt, hholds.mono⟩
    by_cases hvi : v.author = i
    · subst hvi
      rw [Function.update_self]
      exact hkeep a loaded hstage
    · rw [Function.update_of_ne hvi, hstage]
  single := inv.single
  once := by
    intro v hv
    have hreplaced := inv.once v hv
    by_cases hvi : v.author = i
    · subst hvi
      simp only [Function.update_self]
      exact honce hreplaced
    · simpa only [Function.update_of_ne hvi] using hreplaced
  done := by
    intro j hj
    by_cases hji : j = i
    · subst hji
      simp only [Function.update_self] at hj
      exact hdone hj
    · simp only [Function.update_of_ne hji] at hj
      exact inv.done j hj

/-- A step that replaces the live table makes a version. -/
theorem history_replace {initial : Table} {p : Saves ι} {stage : ι → Stage}
    {versions : List (Version ι)} (inv : History rt ch clients t initial p stage versions)
    {i : ι} {a : ℕ} {loaded table : Table} (hi : stage i = .saving a loaded) {q : Stmt}
    {ans : Except Exn Table} {db' : Database} {prog : Handler Unit} (hq : Replaces t q)
    (htable : db' t.name = some table)
    (hholds : HoldsSave rt ch (fun _ => saveOf t (clients i) loaded) p.log i t table)
    (hfirst : ¬ Replaced (p.progs i)) (hprog : Replaced prog) :
    History rt ch clients t initial ⟨db', Function.update p.progs i prog, p.log ++ [(i, q, ans)]⟩
      stage (versions ++ [⟨i, p.log.length, table⟩]) where
  loaded := by
    intro j b loaded hj
    obtain ⟨hlog, hversion⟩ := inv.loaded j b loaded hj
    have hlt := (List.getElem?_eq_some_iff.mp hlog).1
    exact ⟨getElem?_append_some hlog, by rw [versionAt_append (Nat.le_of_lt hlt), hversion]⟩
  live := by simp only [latest_append, htable]
  wrote := by
    intro v hv
    rcases List.mem_append.mp hv with hv | hv
    · obtain ⟨q, ans, hlog, hq⟩ := inv.wrote v hv
      exact ⟨q, ans, getElem?_append_some hlog, hq⟩
    · cases List.mem_singleton.mp hv
      exact ⟨q, ans, by simp, hq⟩
  ordered := by
    refine List.pairwise_append.mpr ⟨inv.ordered, List.pairwise_singleton _ _, ?_⟩
    intro v hv w hw
    cases List.mem_singleton.mp hw
    exact inv.time_lt hv
  built := by
    intro v hv
    rcases List.mem_append.mp hv with hv | hv
    · obtain ⟨b, loaded, hstage, hlt, hholds⟩ := inv.built v hv
      exact ⟨b, loaded, hstage, hlt, hholds.mono⟩
    · cases List.mem_singleton.mp hv
      exact ⟨a, loaded, hi, (List.getElem?_eq_some_iff.mp (inv.loaded i a loaded hi).1).1,
        hholds.mono⟩
  single := by
    rw [List.map_append, List.map_singleton, List.nodup_append]
    refine ⟨inv.single, List.nodup_singleton _, ?_⟩
    rintro j hj _ hmem rfl
    obtain ⟨v, hv, rfl⟩ := List.mem_map.mp hj
    cases List.mem_singleton.mp hmem
    exact hfirst (inv.once v hv)
  once := by
    intro v hv
    by_cases hvi : v.author = i
    · subst hvi
      simpa only [Function.update_self] using hprog
    · simp only [Function.update_of_ne hvi]
      rcases List.mem_append.mp hv with hv | hv
      · exact inv.once v hv
      · cases List.mem_singleton.mp hv
        exact absurd rfl hvi
  done := by
    intro j hj
    by_cases hji : j = i
    · exact ⟨_, List.mem_append_right _ List.mem_cons_self, hji.symm⟩
    · simp only [Function.update_of_ne hji] at hj
      obtain ⟨v, hv, hauthor⟩ := inv.done j hj
      exact ⟨v, List.mem_append_left _ hv, hauthor⟩

/-- A client that is saving stands in a phase of the save of the page it
loaded, and replaces the live table by that save's rows. -/
theorem phase_of_saving {p : Saves ι} {stage : ι → Stage}
    (inv : Sessions rt ch clients t db₀ p stage) {i : ι} {a : ℕ} {loaded : Table}
    (hi : stage i = .saving a loaded) :
    let call := saveOf t (clients i) loaded
    ∃ ph : Phase, p.progs i = ph.prog rt call.encode call.data ∧
      PhaseKnows rt (fun _ => call) p.log i ph ∧
      ∀ q b db', ph.stmt = some q → exec ch p.store q = .ok (b, db') → t.name ∈ q.writes →
        ∃ table, db' t.name = some table ∧ HoldsSave rt ch (fun _ => call) p.log i t table := by
  let pages : ι → Table := fun j => match stage j with
    | .saving _ loaded => loaded
    | _ => loaded
  have hpages : PagesAgree stage pages := fun j b table hj => by simp only [pages, hj]
  have hcall : calls clients t pages i = saveOf t (clients i) loaded := by
    rw [calls, hpages i a loaded hi]
  obtain ⟨log, hlog, hreach⟩ := inv.saves pages hpages
  obtain ⟨ph, own⟩ := ownership_reachable (t := t) hreach
  have hprog : p.progs i = (ph i).prog rt (saveOf t (clients i) loaded).encode
      (saveOf t (clients i) loaded).data := by
    have := own.program i
    simpa only [saveProg, hi, hcall] using this
  have hknows : PhaseKnows rt (fun _ => calls clients t pages i) p.log i (ph i) := by
    have := (own.knows i).of_subset hlog
    cases hph : ph i <;> rw [hph] at this <;> exact this
  refine ⟨ph i, hprog, hcall ▸ hknows, ?_⟩
  intro q b db' hq hexec hw
  obtain ⟨table, htable, hholds⟩ := holds_of_replaced own hq hexec hw
  have hholds : HoldsSave rt ch (fun _ => calls clients t pages i) p.log i t table :=
    hholds.of_subset hlog
  exact ⟨table, htable, hcall ▸ hholds⟩

/-- A step of a save makes a version exactly if it replaces the live table. -/
theorem history_saved {initial : Table} {p : Saves ι} {stage : ι → Stage}
    {versions : List (Version ι)} (hsessions : Sessions rt ch clients t db₀ p stage)
    (inv : History rt ch clients t initial p stage versions) {i : ι} {a : ℕ} {loaded : Table}
    (hstage : stage i = .saving a loaded) {q : Stmt} {k : Except Exn Table → Handler Unit}
    (hcall : p.progs i = .call q k) {ans : Except Exn Table} {db' : Database}
    (hs : Serve ch p.store q ans db') :
    ∃ versions', History rt ch clients t initial
      ⟨db', Function.update p.progs i (k ans), p.log ++ [(i, q, ans)]⟩ stage versions' := by
  obtain ⟨ph, hprogi, hknows, hreplace⟩ := phase_of_saving hsessions hstage
  rw [hcall] at hprogi
  obtain ⟨hq, hk⟩ := Phase.prog_call rt _ _ ph hprogi.symm
  have hafter := hk ans
  have hends := @ends_by_replacing _ rt t (saveOf t (clients i) loaded) rfl i p.log ph q ans hq hknows
  rw [← hafter, ← hprogi] at hends
  have quiet (hlive : db' t.name = p.store t.name)
      (hread : t.name ∉ q.writes ∨ ∀ b, ans ≠ .ok b) :
      History rt ch clients t initial
        ⟨db', Function.update p.progs i (k ans), p.log ++ [(i, q, ans)]⟩ stage versions := by
    have hupdate : Function.update stage i (.saving a loaded) = stage := by
      rw [← hstage, Function.update_eq_self]
    rw [← hupdate]
    refine history_quiet inv hlive ?_ (fun _ _ hst => hstage.symm.trans hst) ?_ ?_
    · rintro b table ⟨⟩
      obtain ⟨hlog, hversion⟩ := inv.loaded i a loaded hstage
      exact ⟨getElem?_append_some hlog, hversion⟩
    · intro h
      rw [hcall] at h
      exact replaced_step h ans
    · intro hend
      obtain ⟨⟨b, hok⟩, hw | ⟨u, hdrop⟩⟩ := hends hend
      · rcases hread with hread | hread
        · exact absurd hw hread
        · exact absurd hok (hread b)
      · exact inv.done i (Or.inr ⟨u, hcall.trans hdrop⟩)
  rcases serve_effect hs with ⟨hsame, e, rfl⟩ | ⟨b, hexec⟩
  · exact ⟨versions, quiet (by rw [hsame]) (Or.inr (by simp))⟩
  · by_cases hw : t.name ∈ q.writes
    · obtain ⟨table, htable, hholds⟩ := hreplace q b db' hq hexec hw
      obtain ⟨hreplaces, hfirst, hlast⟩ := phase_replaced hq hw ans
      rw [← hprogi, ← hcall] at hfirst
      rw [← hafter] at hlast
      exact ⟨_, history_replace inv hstage hreplaces htable hholds hfirst hlast⟩
    · exact ⟨versions, quiet (exec_frame hexec hw) (Or.inl hw)⟩

theorem history_step {initial : Table} {p p' : Saves ι} {stage : ι → Stage}
    {versions : List (Version ι)} (hsessions : Sessions rt ch clients t db₀ p stage)
    (inv : History rt ch clients t initial p stage versions) (h : Pool.Step (Serve ch) p p') :
    ∃ stage' versions', Sessions rt ch clients t db₀ p' stage' ∧
      History rt ch clients t initial p' stage' versions' := by
  obtain @⟨i, q, k, ans, db', hcall, hs⟩ := h
  obtain ⟨st, hmoves⟩ := moves_of_step hsessions hcall hs
  have hsessions' := sessions_step hsessions hcall hs hmoves
  generalize hstage : stage i = before at hmoves
  generalize hprog : k ans = prog at hmoves hsessions' ⊢
  have honce (h : Replaced (p.progs i)) : Replaced prog := by
    rw [hcall] at h
    exact hprog ▸ replaced_step h ans
  cases hmoves with
  | opened a =>
    refine ⟨_, versions, hsessions', history_quiet inv rfl (by simp) (by simp [hstage]) honce ?_⟩
    simp [loadRest, Phase.dropRest]
  | read loaded hloaded =>
    refine ⟨_, versions, hsessions', history_quiet inv rfl ?_ (by simp [hstage]) honce ?_⟩
    · intro b loaded' h
      cases h
      refine ⟨by simp, ?_⟩
      rw [versionAt_end fun v hv => inv.time_lt hv]
      exact Option.some.inj (hloaded.symm.trans inv.live)
    · simp [saveData, Prog.perform_bind, Phase.dropRest]
  | refused _ _ e hst =>
    refine ⟨_, versions, hsessions', history_quiet inv rfl (by simp) ?_ honce ?_⟩
    · exact fun b loaded h => absurd (hstage.symm.trans h) (hst b loaded)
    · simp [Phase.dropRest]
  | saved a loaded =>
    obtain ⟨versions', inv'⟩ := history_saved hsessions inv hstage hcall hs
    have hupdate : Function.update stage i (.saving a loaded) = stage := by
      rw [← hstage, Function.update_eq_self]
    rw [hupdate] at hsessions'
    rw [hprog] at inv'
    exact ⟨_, versions', hsessions', inv'⟩

theorem history_reachable {initial : Table} (hinitial : db₀ t.name = some initial) {p : Saves ι}
    (h : Pool.Reachable (Serve ch) db₀ (sessions rt clients t) p) :
    ∃ stage versions, Sessions rt ch clients t db₀ p stage ∧
      History rt ch clients t initial p stage versions :=
  h.invariant (fun p => ∃ stage versions, Sessions rt ch clients t db₀ p stage ∧
      History rt ch clients t initial p stage versions)
    ⟨_, _, sessions_start, history_start hinitial⟩
    fun _ _ ⟨_, _, hsessions, inv⟩ hstep => history_step hsessions inv hstep

/-! ## Two clients -/

/-- The table is the complete save client `i` makes of the page of `loaded`. -/
def SavedFrom (rt : Runtime) (ch : ClickHouse) (clients : ι → Client) (t : AdminTable)
    (log : List (ι × Stmt × Except Exn Table)) (i : ι) (loaded table : Table) : Prop :=
  HoldsSave rt ch (fun _ => saveOf t (clients i) loaded) log i t table

theorem two_authors {versions : List (Version Bool)} (hsingle : (versions.map Version.author).Nodup)
    (hall : ∀ i, ∃ v ∈ versions, v.author = i) :
    ∃ v w, versions = [v, w] ∧ v.author ≠ w.author := by
  match versions with
  | [] =>
    obtain ⟨v, hv, -⟩ := hall true
    cases hv
  | [v] =>
    obtain ⟨w, hw, hauthor⟩ := hall (!v.author)
    cases List.mem_singleton.mp hw
    cases hv : v.author <;> simp [hv] at hauthor
  | [v, w] => exact ⟨v, w, rfl, by simpa using hsingle⟩
  | v :: w :: u :: rest =>
    simp only [List.map_cons, List.nodup_cons, List.mem_cons, not_or] at hsingle
    obtain ⟨⟨hvw, hvu, -⟩, ⟨hwu, -⟩, -⟩ := hsingle
    cases hv : v.author <;> cases hw : w.author <;> cases hu : u.author <;> simp_all

/-- **The last save wins.** Once both saves of two clients were answered with
success, the table is exactly what the client whose save took effect last made
of the page it had loaded. That page showed the other client's save if it was
loaded after that save took effect, and the initial table otherwise. -/
theorem last_save_wins (rt : Runtime) (ch : ClickHouse) (clients : Bool → Client) (t : AdminTable)
    (db₀ : Database) (initial : Table) (p : Saves Bool) (hinitial : db₀ t.name = some initial)
    (h : Pool.Reachable (Serve ch) db₀ (sessions rt clients t) p)
    (hdone : ∀ i, p.progs i = .done ()) :
    ∃ (v w : Version Bool) (a : ℕ) (loaded : Table),
      v.author ≠ w.author ∧ v.time < w.time ∧
      (∀ u ∈ [v, w], ∃ q ans, p.log[u.time]? = some (u.author, q, ans) ∧ Replaces t q) ∧
      SavedFrom rt ch clients t p.log v.author initial v.table ∧
      p.log[a]? = some (w.author, .selectAll t.name, .ok loaded) ∧
      loaded = (if v.time < a then v.table else initial) ∧
      SavedFrom rt ch clients t p.log w.author loaded w.table ∧
      p.store t.name = some w.table := by
  obtain ⟨stage, versions, -, inv⟩ := history_reachable hinitial h
  obtain ⟨v, w, rfl, hauthors⟩ := two_authors inv.single fun i => inv.done i (Or.inl (hdone i))
  have hvw : v.time < w.time := by simpa using inv.ordered
  obtain ⟨a, loaded, hstage, hlt, hholds⟩ := inv.built w (by simp)
  obtain ⟨hlog, hversion⟩ := inv.loaded _ _ _ hstage
  obtain ⟨a', loaded', hstage', hlt', hholds'⟩ := inv.built v (by simp)
  obtain ⟨-, hversion'⟩ := inv.loaded _ _ _ hstage'
  have hfirst : loaded' = initial := by
    have hv : ¬ v.time < a' := by omega
    have hw : ¬ w.time < a' := by omega
    simpa [versionAt, hv, hw, latest] using hversion'
  have hlast : loaded = if v.time < a then v.table else initial := by
    have hw : ¬ w.time < a := by omega
    by_cases hv : v.time < a <;> simpa [versionAt, hv, hw, latest] using hversion
  exact ⟨v, w, a, loaded, hauthors, hvw, inv.wrote, hfirst ▸ hholds', hlog, hlast, hholds, inv.live⟩

end

/-! ## An edit that is lost -/

def newPolicy : Dict Value :=
  [("doc_id", .str ""), ("title", .str "Privacy"), ("effective_date", .str "2024-05-01")]

/-- One client renames the first policy, the other adds one. -/
def demoClients (second : Bool) : Client where
  edit page :=
    if second then page.data ++ [newPolicy]
    else page.data.map fun r => r.set "title" (.str "Refunds")
  encode _ := .error ⟨"no text to encode"⟩

/-- Both load, then the first client saves, then the second. -/
def lostUpdate : Saves Bool :=
  Pool.play (answer demoClickHouse .none)
    [false, false, true, true, false, false, false, false, false, false,
      true, true, true, true, true, true]
    ⟨demoDatabase, sessions Runtime.ascii demoClients .companyTos, []⟩

def lostUpdateAfter : Table :=
  ⟨["doc_id", "title", "tags", "effective_date"],
    [[.str "TOS-001", .str "Returns", .list [], .date 2024 1 1],
      [.str "TOS-002", .str "Privacy", .list [], .date 2024 5 1]]⟩

theorem lostUpdate_done : ∀ i, lostUpdate.progs i = .done () := by
  intro i
  cases i <;> rfl

theorem lostUpdate_reachable :
    Pool.Reachable (Serve demoClickHouse) demoDatabase
      (sessions Runtime.ascii demoClients .companyTos) lostUpdate :=
  Pool.Reachable.start.play (answer_serves demoClickHouse .none) _

theorem last_save_wins_lostUpdate :
    ∃ i loaded, SavedFrom Runtime.ascii demoClickHouse demoClients .companyTos lostUpdate.log i
      loaded lostUpdateAfter := by
  obtain ⟨_, w, _, loaded, -, -, -, -, -, -, hsaved, hlive⟩ :=
    last_save_wins Runtime.ascii demoClickHouse demoClients .companyTos demoDatabase demoTable
      lostUpdate rfl lostUpdate_reachable lostUpdate_done
  have htable : w.table = lostUpdateAfter := Option.some.inj (hlive.symm.trans rfl)
  exact ⟨w.author, loaded, htable ▸ hsaved⟩

/-- Both saves succeeded, and the renaming is gone. -/
theorem renaming_lost :
    Pool.Reachable (Serve demoClickHouse) demoDatabase
      (sessions Runtime.ascii demoClients .companyTos) lostUpdate ∧
    (∀ i, lostUpdate.progs i = .done ()) ∧
    lostUpdate.store "company_tos" = some lostUpdateAfter ∧
    ∀ row ∈ lostUpdateAfter.rows, lostUpdateAfter.text row "title" ≠ some "Refunds" := by
  refine ⟨lostUpdate_reachable, lostUpdate_done, rfl, by decide⟩

end TechMart.Admin
