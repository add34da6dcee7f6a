import TechMart.Python.Runs
import TechMart.Python.Value

/-!
# The specs migration

`migrate_catalog` rewrites the catalog file in place: it takes the old specs
out, saves, has a model extract new ones for nine products at a time, and saves
again. `runs_batches` is the invariant of its loop: the batches done so far
hold what their replies gave them, the others are as they were.
-/

namespace TechMart.Db

open Python

/-! ## Extracted specs -/

structure ProductSpecs where
  productId : Str
  ramGb : Option Str := none
  storageGb : Option Str := none
  battery : Option Str := none
  screenInches : Option Str := none
  resolution : Option Str := none
  refreshRateHz : Option Str := none
  cameraMp : Option Str := none
  cpu : Option Str := none
  gpu : Option Str := none
  os : Option Str := none
  displayType : Option Str := none
  anc : Option Str := none
  connectivity : Option Str := none
  features : Option Str := none

namespace ProductSpecs

/-- `item.dict()`. -/
def dict (item : ProductSpecs) : Dict (Option Str) :=
  [("product_id", some item.productId), ("ram_gb", item.ramGb), ("storage_gb", item.storageGb),
    ("battery", item.battery), ("screen_inches", item.screenInches),
    ("resolution", item.resolution), ("refresh_rate_hz", item.refreshRateHz),
    ("camera_mp", item.cameraMp), ("cpu", item.cpu), ("gpu", item.gpu), ("os", item.os),
    ("display_type", item.displayType), ("anc", item.anc), ("connectivity", item.connectivity),
    ("features", item.features)]

/-- The fields that are not null, without the id. -/
def specs (item : ProductSpecs) : Dict Value :=
  item.dict.filterMap fun field =>
    if field.1 = ("product_id" : Str) then none
    else field.2.map fun text => (field.1, .str text)

end ProductSpecs

/-- `spec_map`. -/
def specMap (products : List ProductSpecs) : Dict (Dict Value) :=
  Dict.ofPairs (products.map fun item => (item.productId, item.specs))

/-! ## One product -/

/-- `v[key]`. -/
def subscript : Value → Str → Except Exn Value
  | .dict kvs, key => match Dict.get? kvs key with
    | some v => .ok v
    | none => .error ⟨'\'' :: key ++ ['\'']⟩
  | _, _ => .error ⟨"indices must be integers or slices, not str"⟩

/-- `"specs" in metadata`. -/
def hasSpecs : Value → Except Exn Bool
  | .dict kvs => .ok (Dict.get? kvs "specs").isSome
  | .list xs => .ok (xs.any fun
    | .str s => s == "specs".toList
    | _ => false)
  | .str s => .ok (contains s "specs")
  | _ => .error ⟨"argument is not iterable"⟩

/-- The body of the first loop: the old specs are deleted. -/
def cleaned : Value → Except Exn Value
  | .dict kvs => do
    let metadata := Dict.getD kvs "metadata" (.dict [])
    if ← hasSpecs metadata then
      match metadata with
      | .dict fields =>
        .ok (.dict (Dict.set kvs "metadata" (.dict (Dict.pop fields "specs"))))
      | _ => .error ⟨"object does not support item deletion"⟩
    else .ok (.dict kvs)
  | _ => .error ⟨"object has no attribute 'get'"⟩

/-- `spec_map.get(product_id, {})`. -/
def extractedSpecs (found : Dict (Dict Value)) : Value → Except Exn (Dict Value)
  | .str id => .ok (found.getD id [])
  | .list _ | .dict _ => .error ⟨"unhashable type"⟩
  | _ => .ok []

/-- The body of the loop that maps the results back. -/
def assigned (found : Dict (Dict Value)) (p : Value) : Except Exn Value := do
  let productId ← subscript p "product_id"
  let extracted ← extractedSpecs found productId
  let metadata ← subscript p "metadata"
  match p, metadata with
  | .dict kvs, .dict fields =>
    .ok (.dict (Dict.set kvs "metadata" (.dict (Dict.set fields "specs" (.dict extracted)))))
  | _, _ => .error ⟨"object does not support item assignment"⟩

/-! ## A batch -/

/-- The results mapped back into the batch. The first product that raises ends
the loop, and the ones before it keep what they got. -/
def assignAll (found : Dict (Dict Value)) : List Value → List Value
  | [] => []
  | p :: batch => match assigned found p with
    | .ok p' => p' :: assignAll found batch
    | .error _ => p :: batch

/-- The batch after the `try` block, once the model has replied. -/
def mapResults : Option (List ProductSpecs) → List Value → List Value
  | some products, batch => assignAll (specMap products) batch
  | none, batch => batch

def promptIntro : Str :=
  ("Extract technical specifications for the following products. ONLY extract " : Str) ++
  "hardware/technical specs. DO NOT extract price, rating, stock, or warranty.\n\n"

def productPrompt (rt : Runtime) (p : Value) : Except Exn Str := do
  let productId ← subscript p "product_id"
  let content ← subscript p "page_content"
  .ok ("ID: " ++ rt.str productId ++ "\nDescription: " ++ rt.str content ++ "\n\n")

def batchPrompt (rt : Runtime) (batch : List Value) : Except Exn Str := do
  .ok (promptIntro ++ (← batch.mapM (productPrompt rt)).flatten)

/-! ## The script -/

/-- An exception, or what ends the script wherever it stands. -/
inductive Raised where
  | exception (e : Exn)
  | aborted

/-- What the script does with the file and the model. `openCatalog` is the
opening for writing, `dump` writes and closes. -/
inductive Op where
  | readCatalog
  | openCatalog
  | dump (data : List Value)
  | structuredLlm
  | invoke (prompt : Str)
  | sleep

inductive Answer where
  | done
  | catalog (data : List Value)
  | result (products : Option (List ProductSpecs))

abbrev Script (α : Type) := Prog Raised Op Answer α

def raising {α : Type} : Except Exn α → Script α
  | .ok a => .done a
  | .error e => .raise (.exception e)

def readCatalog : Script (List Value) := do
  match ← Prog.perform .readCatalog with
  | .catalog data => pure data
  | _ => pure []

def save (data : List Value) : Script Unit := do
  let _ ← Prog.perform .openCatalog
  let _ ← Prog.perform (.dump data)
  pure ()

def batchSize : Nat := 9

/-- `data[i:i+batch_size]`. -/
def batchAt (data : List Value) (i : Nat) : List Value := (data.drop i).take batchSize

/-- The products after the batch at `i`, which shares them, was changed. -/
def withBatch (data : List Value) (i : Nat) (batch : List Value) : List Value :=
  data.take i ++ batch ++ data.drop (i + batchSize)

/-- The `try` block of a batch; `except Exception` only prints. -/
def extractBatch (prompt : Str) (batch : List Value) : Script (List Value) :=
  (do
    match ← Prog.perform (.invoke prompt) with
    | .result result => pure (mapResults result batch)
    | _ => pure batch : Script (List Value)).tryCatch fun
  | .exception _ => .done batch
  | .aborted => .raise .aborted

/-- The loop over the batches that start at these places. -/
def migrateBatches (rt : Runtime) : List Nat → List Value → Script (List Value)
  | [], data => pure data
  | i :: starts, data => do
    let prompt ← raising (batchPrompt rt (batchAt data i))
    let batch ← extractBatch prompt (batchAt data i)
    let _ ← Prog.perform .sleep
    migrateBatches rt starts (withBatch data i batch)

def totalBatches (n : Nat) : Nat := (n + batchSize - 1) / batchSize

/-- `range(0, n, batch_size)`. -/
def batchStarts (n : Nat) : List Nat := (List.range (totalBatches n)).map (batchSize * ·)

def migrateCatalog (rt : Runtime) : Script Unit := do
  let data ← readCatalog
  let data ← raising (data.mapM cleaned)
  save data
  let _ ← Prog.perform .structuredLlm
  let data ← migrateBatches rt (batchStarts data.length) data
  save data

/-! ## The fields of a product -/

def fieldOf : Value → Str → Option Value
  | .dict kvs, key => Dict.get? kvs key
  | _, _ => none

def idOf (p : Value) : Option Value := fieldOf p "product_id"

def metadataOf (p : Value) : Option (Dict Value) :=
  match fieldOf p "metadata" with
  | some (.dict fields) => some fields
  | _ => none

def metadataField (p : Value) (key : Str) : Option Value :=
  (metadataOf p).bind fun fields => fields.get? key

def specsOf (p : Value) : Option Value := metadataField p "specs"

def hashable : Option Value → Bool
  | none | some (.list _) | some (.dict _) => false
  | some _ => true

/-- Specs can be mapped back into the product. -/
def Assignable (p : Value) : Prop := hashable (idOf p) = true ∧ (metadataOf p).isSome = true

/-- What an item says of its product, one field after the other. -/
def technicalFields (item : ProductSpecs) : List (Str × Option Str) :=
  [("ram_gb", item.ramGb), ("storage_gb", item.storageGb), ("battery", item.battery),
    ("screen_inches", item.screenInches), ("resolution", item.resolution),
    ("refresh_rate_hz", item.refreshRateHz), ("camera_mp", item.cameraMp), ("cpu", item.cpu),
    ("gpu", item.gpu), ("os", item.os), ("display_type", item.displayType), ("anc", item.anc),
    ("connectivity", item.connectivity), ("features", item.features)]

/-- Every field that is not null, as text. -/
def nonNull (fields : List (Str × Option Str)) : Dict Value :=
  fields.flatMap fun field => match field.2 with
    | some text => [(field.1, .str text)]
    | none => []

/-- The specs of the last item with the id. -/
def newSpecs (products : List ProductSpecs) : Option Value → Dict Value
  | some (.str id) => match products.reverse.find? fun item => item.productId = id with
    | some item => nonNull (technicalFields item)
    | none => []
  | _ => []

/-- The second product is the first one, its specs apart. -/
structure SameBut (p q : Value) : Prop where
  fields : ∀ key : Str, key ≠ "metadata".toList → fieldOf q key = fieldOf p key
  isSome : (metadataOf q).isSome = (metadataOf p).isSome
  metadata : ∀ key : Str, key ≠ "specs".toList → metadataField q key = metadataField p key

namespace SameBut

variable {p q r : Value}

theorem refl (p : Value) : SameBut p p := ⟨fun _ _ => rfl, rfl, fun _ _ => rfl⟩

theorem trans (h : SameBut p q) (h' : SameBut q r) : SameBut p r where
  fields key hkey := (h'.fields key hkey).trans (h.fields key hkey)
  isSome := h'.isSome.trans h.isSome
  metadata key hkey := (h'.metadata key hkey).trans (h.metadata key hkey)

theorem id (h : SameBut p q) : idOf q = idOf p := h.fields _ (by decide)

theorem assignable (h : SameBut p q) : Assignable q ↔ Assignable p := by
  rw [Assignable, Assignable, h.id, h.isSome]

/-- Other metadata that differ in the specs only. -/
theorem set {kvs fields fields' : Dict Value}
    (h : Dict.get? kvs "metadata" = some (.dict fields))
    (hfields : ∀ key : Str, key ≠ "specs".toList → fields'.get? key = fields.get? key) :
    SameBut (.dict kvs) (.dict (Dict.set kvs "metadata" (.dict fields'))) := by
  have hold : metadataOf (.dict kvs) = some fields := by
    simp only [metadataOf, fieldOf, h]
  have hnew : metadataOf (.dict (Dict.set kvs "metadata" (.dict fields'))) = some fields' := by
    simp only [metadataOf, fieldOf, Dict.get?_set_self]
  constructor
  · intro key hkey
    exact Dict.get?_set_ne kvs (Ne.symm hkey) _
  · rw [hold, hnew]
    rfl
  · intro key hkey
    simp only [metadataField, hold, hnew, Option.bind_some]
    exact hfields key hkey

end SameBut

theorem specsOf_set (kvs fields : Dict Value) :
    specsOf (.dict (Dict.set kvs "metadata" (.dict fields))) = fields.get? "specs" := by
  simp only [specsOf, metadataField, metadataOf, fieldOf, Dict.get?_set_self, Option.bind_some]

/-! ## What the loops do to a product -/

/-- A cleaned product has no specs. -/
theorem cleaned_ok {p c : Value} (h : cleaned p = .ok c) : SameBut p c ∧ specsOf c = none := by
  cases p with
  | dict kvs =>
    obtain ⟨found, hfound, h⟩ := bind_ok h
    cases hmetadata : Dict.get? kvs "metadata" with
    | none =>
      have hempty : Dict.getD kvs "metadata" (.dict []) = .dict [] := by
        rw [Dict.getD, hmetadata]
        rfl
      rw [hempty] at hfound
      cases hfound
      cases h
      refine ⟨.refl _, ?_⟩
      simp only [specsOf, metadataField, metadataOf, fieldOf, hmetadata, Option.bind_none]
    | some metadata =>
      have hvalue : Dict.getD kvs "metadata" (.dict []) = metadata := by
        rw [Dict.getD, hmetadata]
        rfl
      rw [hvalue] at hfound h
      cases found with
      | true =>
        cases metadata with
        | dict fields =>
          cases h
          refine ⟨.set hmetadata fun key hkey => Dict.get?_pop_ne fields (Ne.symm hkey), ?_⟩
          rw [specsOf_set, Dict.get?_pop_self]
        | none | bool | int | float | str | list | date => cases h
      | false =>
        cases h
        refine ⟨.refl _, ?_⟩
        cases metadata with
        | dict fields =>
          simp only [hasSpecs, Except.ok.injEq, Option.isSome_eq_false_iff,
            Option.isNone_iff_eq_none] at hfound
          simp only [specsOf, metadataField, metadataOf, fieldOf, hmetadata, Option.bind_some,
            hfound]
        | none | bool | int | float | str | list | date =>
          simp only [specsOf, metadataField, metadataOf, fieldOf, hmetadata, Option.bind_none]
  | none | bool | int | float | str | list | date => cases h

/-- The comprehension leaves out the id and what is null, and nothing else. -/
theorem specs_eq (item : ProductSpecs) : item.specs = nonNull (technicalFields item) := by
  have hfields (fields : List (Str × Option Str)) (h : ∀ f ∈ fields, f.1 ≠ ("product_id" : Str)) :
      (fields.filterMap fun field => if field.1 = ("product_id" : Str) then none
        else field.2.map fun text => (field.1, Value.str text)) = nonNull fields := by
    induction fields with
    | nil => rfl
    | cons f fields ih =>
      obtain ⟨hf, hrest⟩ := List.forall_mem_cons.mp h
      obtain ⟨key, value⟩ := f
      rw [List.filterMap_cons, if_neg hf, ih hrest]
      cases value <;> rfl
  have hkeys : ∀ f ∈ technicalFields item, f.1 ≠ ("product_id" : Str) := by
    simp only [technicalFields, List.forall_mem_cons, List.not_mem_nil, false_imp_iff, implies_true,
      and_true]
    decide
  exact hfields (technicalFields item) hkeys

theorem extractedSpecs_specMap (products : List ProductSpecs) {id : Value}
    (h : hashable (some id) = true) :
    extractedSpecs (specMap products) id = .ok (newSpecs products (some id)) := by
  cases id with
  | str id =>
    have hfind : ((products.map fun item => (item.productId, item.specs)).reverse.find?
        fun kv => kv.1 = id) =
        (products.reverse.find? fun item => item.productId = id).map
          fun item => (item.productId, item.specs) := by
      rw [← List.map_reverse, List.find?_map]
      rfl
    rw [extractedSpecs, Dict.getD, specMap, Dict.get?_ofPairs, hfind, newSpecs]
    cases products.reverse.find? fun item => item.productId = id with
    | none => rfl
    | some item => exact congrArg Except.ok (specs_eq item)
  | list | dict => cases h
  | none | bool | int | float | date => rfl

theorem subscript_ok {p v : Value} {key : Str} :
    subscript p key = .ok v ↔ fieldOf p key = some v := by
  cases p with
  | dict kvs =>
    simp only [subscript, fieldOf]
    cases Dict.get? kvs key <;> simp
  | none | bool | int | float | str | list | date => simp [subscript, fieldOf]

theorem assigned_ok (products : List ProductSpecs) {p : Value} (h : Assignable p) :
    ∃ q, assigned (specMap products) p = .ok q ∧ SameBut p q ∧
      specsOf q = some (.dict (newSpecs products (idOf p))) := by
  obtain ⟨hhash, hmetadata⟩ := h
  cases hid : idOf p with
  | none =>
    rw [hid] at hhash
    cases hhash
  | some id =>
    obtain ⟨fields, hfields⟩ := Option.isSome_iff_exists.mp hmetadata
    cases p with
    | dict kvs =>
      have hget : Dict.get? kvs "metadata" = some (.dict fields) := by
        simp only [metadataOf] at hfields
        split at hfields
        · cases hfields
          assumption
        · cases hfields
      refine ⟨.dict (Dict.set kvs "metadata" (.dict (Dict.set fields "specs"
        (.dict (newSpecs products (some id)))))), ?_, .set hget fun key hkey =>
          Dict.get?_set_ne fields (Ne.symm hkey) _, ?_⟩
      · rw [hid] at hhash
        have hfield : fieldOf (.dict kvs) "metadata" = some (.dict fields) := hget
        rw [assigned, subscript_ok.mpr hid, subscript_ok.mpr hfield]
        simp only [bind, Except.bind, extractedSpecs_specMap products hhash]
      · rw [specsOf_set, Dict.get?_set_self]
    | none | bool | int | float | str | list | date => cases hfields

theorem assignable_of_ok {found : Dict (Dict Value)} {p q : Value} (h : assigned found p = .ok q) :
    Assignable p := by
  obtain ⟨id, hid, h⟩ := bind_ok h
  obtain ⟨extracted, hextracted, h⟩ := bind_ok h
  obtain ⟨metadata, hmetadata, h⟩ := bind_ok h
  rw [subscript_ok] at hid hmetadata
  constructor
  · rw [idOf, hid]
    cases id with
    | list | dict => cases hextracted
    | none | bool | int | float | str | date => rfl
  · cases metadata with
    | dict fields => simp only [metadataOf, hmetadata, Option.isSome_some]
    | none | bool | int | float | str | list | date => cases p <;> cases h

/-! ## What they do to a batch -/

/-- The mapping of results comes to this product of the batch. -/
def Reaches (batch : List Value) (t : Nat) : Prop :=
  ∀ j ≤ t, ∀ p, batch[j]? = some p → Assignable p

theorem length_assignAll (found : Dict (Dict Value)) (batch : List Value) :
    (assignAll found batch).length = batch.length := by
  induction batch with
  | nil => rfl
  | cons p batch ih =>
    rw [assignAll]
    split
    · rw [List.length_cons, List.length_cons, ih]
    · rfl

theorem length_mapResults (result : Option (List ProductSpecs)) (batch : List Value) :
    (mapResults result batch).length = batch.length := by
  cases result with
  | none => rfl
  | some products => exact length_assignAll _ batch

/-- A product the mapping comes to gets the specs of its id; another keeps
what it had. -/
theorem getElem?_assignAll (products : List ProductSpecs) {batch : List Value} {t : Nat} {p : Value}
    (hp : batch[t]? = some p) : ∃ q, (assignAll (specMap products) batch)[t]? = some q ∧
      SameBut p q ∧ (Reaches batch t → specsOf q = some (.dict (newSpecs products (idOf p)))) ∧
      (¬ Reaches batch t → specsOf q = specsOf p) := by
  induction batch generalizing t with
  | nil => cases hp
  | cons head batch ih =>
    rw [assignAll]
    by_cases hhead : Assignable head
    · obtain ⟨q, hq, hsame, hspecs⟩ := assigned_ok products hhead
      rw [hq]
      cases t with
      | zero =>
        cases hp
        have hreaches : Reaches (p :: batch) 0 := by
          intro j hj p hp
          obtain rfl : j = 0 := by omega
          cases hp
          exact hhead
        exact ⟨q, rfl, hsame, fun _ => hspecs, fun h => absurd hreaches h⟩
      | succ t =>
        have hreaches : Reaches (head :: batch) (t + 1) ↔ Reaches batch t := by
          constructor
          · intro h j hj p hp
            exact h (j + 1) (by omega) p hp
          · intro h j hj p hp
            cases j with
            | zero =>
              cases hp
              exact hhead
            | succ j => exact h j (by omega) p hp
        rw [hreaches]
        exact ih hp
    · have hstop : ¬ Reaches (head :: batch) t := fun h => hhead (h 0 (by omega) head rfl)
      cases hassigned : assigned (specMap products) head with
      | ok q => exact absurd (assignable_of_ok hassigned) hhead
      | error e => exact ⟨p, hp, .refl p, fun h => absurd h hstop, fun _ => rfl⟩

/-! ## The loop over the batches -/

theorem getElem?_batchAt (data : List Value) (i : Nat) {t : Nat} (ht : t < batchSize) :
    (batchAt data i)[t]? = data[i + t]? := by
  rw [batchAt, List.getElem?_take_of_lt ht, List.getElem?_drop]

theorem length_withBatch {data batch : List Value} {i : Nat}
    (hbatch : batch.length = (batchAt data i).length) :
    (withBatch data i batch).length = data.length := by
  simp only [batchAt, List.length_take, List.length_drop] at hbatch
  simp only [withBatch, List.length_append, List.length_take, List.length_drop]
  omega

theorem getElem?_withBatch {data batch : List Value} {i : Nat}
    (hbatch : batch.length = (batchAt data i).length) (j : Nat) :
    (withBatch data i batch)[j]? =
      if i ≤ j ∧ j < i + batchSize then batch[j - i]? else data[j]? := by
  simp only [batchAt, List.length_take, List.length_drop] at hbatch
  simp only [withBatch, List.getElem?_append, List.length_append, List.length_take,
    List.getElem?_drop]
  by_cases hbefore : j < i
  · by_cases hlength : j < data.length
    · rw [if_pos (by omega), if_pos (by omega), if_neg (by omega),
        List.getElem?_take_of_lt hbefore]
    · rw [if_neg (by omega), if_neg (by omega), List.getElem?_eq_none (by omega),
        List.getElem?_eq_none (by omega)]
  · by_cases hbatchEnd : j < i + batchSize
    · rw [if_pos (show i ≤ j ∧ j < i + batchSize by omega)]
      by_cases hlength : j < data.length
      · rw [if_pos (by omega), if_neg (by omega)]
        congr 1
        omega
      · rw [if_neg (by omega), List.getElem?_eq_none (by omega),
          List.getElem?_eq_none (by omega)]
    · rw [if_neg (show ¬ (i ≤ j ∧ j < i + batchSize) by omega)]
      by_cases hlength : j < data.length
      · rw [if_neg (by omega)]
        congr 1
        omega
      · rw [if_neg (by omega), List.getElem?_eq_none (by omega),
          List.getElem?_eq_none (by omega)]

theorem mem_batch_iff (j k : Nat) :
    (batchSize * k ≤ j ∧ j < batchSize * k + batchSize) ↔ j / batchSize = k := by
  unfold batchSize
  omega

abbrev Log := List (Op × Except Raised Answer)

/-- What a call to the model gave: a reply, or none. -/
def replyOf : Op × Except Raised Answer → Option (Option (List ProductSpecs))
  | (.invoke _, .ok (.result result)) => some result
  | (.invoke _, _) => some none
  | _ => none

def replies (log : Log) : List (Option (List ProductSpecs)) := log.filterMap replyOf

/-- The reply to the batch of the `j`-th product is mapped back as far as to
this product. -/
def Gets (results : List (Option (List ProductSpecs))) (data : List Value) (j : Nat)
    (products : List ProductSpecs) : Prop :=
  results[j / batchSize]? = some (some products) ∧
  Reaches (batchAt data (batchSize * (j / batchSize))) (j % batchSize)

/-- The products after some batches: the ones of these batches have what the
replies gave them, the others are as they were. -/
structure Migrated (results : List (Option (List ProductSpecs))) (data data' : List Value) :
    Prop where
  length : data'.length = data.length
  rest : ∀ j, results.length ≤ j / batchSize → data'[j]? = data[j]?
  product : ∀ j p, data[j]? = some p → ∃ q, data'[j]? = some q ∧ SameBut p q ∧
    (∀ products, Gets results data j products →
      specsOf q = some (.dict (newSpecs products (idOf p)))) ∧
    ((∀ products, ¬ Gets results data j products) → specsOf q = specsOf p)

theorem Migrated.start (data : List Value) : Migrated [] data data where
  length := rfl
  rest _ _ := rfl
  product j p hp := by
    refine ⟨p, hp, .refl p, ?_, fun _ => rfl⟩
    rintro products ⟨hresult, -⟩
    cases hresult

theorem Migrated.batch {results : List (Option (List ProductSpecs))} {data data' : List Value}
    (h : Migrated results data data') (result : Option (List ProductSpecs)) :
    Migrated (results ++ [result]) data
      (withBatch data' (batchSize * results.length)
        (mapResults result (batchAt data' (batchSize * results.length)))) := by
  have hlength := length_mapResults result (batchAt data' (batchSize * results.length))
  have hsame : batchAt data' (batchSize * results.length) =
      batchAt data (batchSize * results.length) := by
    apply List.ext_getElem?
    intro t
    by_cases ht : t < batchSize
    · rw [getElem?_batchAt _ _ ht, getElem?_batchAt _ _ ht]
      refine h.rest _ (Nat.le_of_eq (Eq.symm ?_))
      exact (mem_batch_iff _ _).mp ⟨Nat.le_add_right .., Nat.add_lt_add_left ht _⟩
    · simp only [batchAt, List.getElem?_take, if_neg ht]
  constructor
  · rw [length_withBatch hlength, h.length]
  · intro j hj
    rw [List.length_append, List.length_singleton] at hj
    have hne : j / batchSize ≠ results.length := by omega
    rw [getElem?_withBatch hlength, if_neg (mt (mem_batch_iff j _).mp hne)]
    exact h.rest j (by omega)
  · intro j p hp
    rw [getElem?_withBatch hlength]
    by_cases hbatch : j / batchSize = results.length
    · have hat : (batchAt data (batchSize * results.length))[j % batchSize]? = some p := by
        rw [getElem?_batchAt _ _ (Nat.mod_lt j (by decide)), ← hbatch, Nat.div_add_mod, hp]
      have hgets (products : List ProductSpecs) : Gets (results ++ [result]) data j products ↔
          result = some products ∧
            Reaches (batchAt data (batchSize * results.length)) (j % batchSize) := by
        rw [Gets, hbatch, List.getElem?_concat_length, Option.some.injEq]
      have hoffset : j - batchSize * results.length = j % batchSize := by
        rw [← hbatch, Nat.mod_eq_sub_mul_div]
      rw [if_pos ((mem_batch_iff j _).mpr hbatch), hsame, hoffset]
      cases result with
      | none =>
        refine ⟨p, hat, .refl p, ?_, fun _ => rfl⟩
        intro products hget
        cases ((hgets products).mp hget).1
      | some products =>
        obtain ⟨q, hq, hbut, hreached, hstopped⟩ := getElem?_assignAll products hat
        refine ⟨q, hq, hbut, ?_, ?_⟩
        · intro products' hget
          obtain ⟨heq, hreaches⟩ := (hgets products').mp hget
          cases heq
          exact hreached hreaches
        · intro hnone
          exact hstopped fun hreaches => hnone products ((hgets products).mpr ⟨rfl, hreaches⟩)
    · have hgets (products : List ProductSpecs) :
          Gets (results ++ [result]) data j products ↔ Gets results data j products := by
        by_cases hlt : j / batchSize < results.length
        · rw [Gets, Gets, List.getElem?_append_left hlt]
        · have hend : (results ++ [result]).length ≤ j / batchSize := by
            rw [List.length_append, List.length_singleton]
            omega
          rw [Gets, Gets, List.getElem?_eq_none hend, List.getElem?_eq_none (by omega)]
      simp only [hgets]
      rw [if_neg (mt (mem_batch_iff j _).mp hbatch)]
      exact h.product j p hp

end TechMart.Db
