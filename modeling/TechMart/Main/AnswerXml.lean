import TechMart.Main.Caller
import TechMart.Web.Form
import TechMart.Web.Xml

/-!
# The answer document

`get_vobiz_xml` takes the caller number and the call UUID from a request and
writes them into the URL of the `Stream` element; `handle_websocket` reads them
from the query of that URL.
-/

namespace TechMart.Main

open Python Web

def isHostChar (c : Char) : Bool :=
  c.isAlphanum || c == '-' || c == '.' || c == '_' || c == ':' || c == '[' || c == ']'

/-- The `Host` of a request: a name or an address, and its port if any. -/
structure Authority where
  text : Str
  valid : text.all isHostChar = true

/-- What `get_vobiz_xml` reads. `json` and `form` are what reading the body as
such gives. -/
structure Request where
  post : Bool
  host : Option Authority
  contentType : Str
  query : Dict Str
  json : Except Exn Value
  form : Except Exn (Dict Str)

def callerKeys : List Str :=
  ["From", "from", "Caller", "caller_id", "from_number", "phone_number"]

/-- The value of the first accepted key that has one. -/
def firstCaller (get : Str → Value) : Value :=
  ((callerKeys.map get).find? Value.truthy).getD (.str [])

def textFields (fields : Dict Str) : Dict Value := fields.map fun kv => (kv.1, .str kv.2)

/-- The fields of the body, in the format its content type names. -/
def Request.body (request : Request) : Except Exn (Dict Value) :=
  if contains request.contentType "application/json" then
    request.json.bind fun
      | .dict fields => .ok fields
      | _ => .error ⟨"object has no attribute 'get'"⟩
  else request.form.map textFields

/-- `caller_phone` and `call_uuid`: from the query first, then from the body of
a POST. A body that cannot be read is passed over. -/
def Request.identify (request : Request) : Value × Value :=
  let caller := firstCaller fun key => .str (request.query.getD key [])
  let callUuid := .str (request.query.getD "CallUUID" [])
  if request.post then
    match request.body with
    | .error _ => (caller, callUuid)
    | .ok fields =>
      (if caller.truthy then caller else firstCaller fun key => fields.getD key (.str []),
        callUuid.orElse (fields.getD "CallUUID" (.str [])))
  else (caller, callUuid)

def hostText : Option Authority → Str
  | some host => host.text
  | none => "None"

/-- The URL without its query. -/
def address (host : Option Authority) : Str := "wss://" ++ hostText host ++ "/ws/vobiz"

def wsUrl (host : Option Authority) (params : List Str) : Str :=
  address host ++ if params.isEmpty then [] else '?' :: join "&amp;" params

def beforeStream : Str := "<?xml version=\"1.0\" encoding=\"UTF-8\"?>\n<Response>\n    "

def openStream : Str :=
  "<Stream bidirectional=\"true\" contentType=\"audio/x-mulaw;rate=8000\" keepCallAlive=\"true\">"

def closeStream : Str := "</Stream>\n</Response>"

def xmlResponse (wsUrl : Str) : Str := beforeStream ++ openStream ++ wsUrl ++ closeStream

/-- `urllib.parse.quote` of a value. -/
def quoteValue : Value → Except Exn Str
  | .str s => .ok (quote s)
  | _ => .error ⟨"quote_from_bytes() expected bytes"⟩

/-- The key a value is to `active_calls`. -/
def callKey : Value → Except Exn Value
  | .list _ => .error ⟨"unhashable type: 'list'"⟩
  | .dict _ => .error ⟨"unhashable type: 'dict'"⟩
  | v => .ok v

/-- The document, and the key put into `active_calls`. -/
structure Answer where
  xml : Str
  activeCall : Option Value

def getVobizXml (rt : Runtime) (request : Request) : Except Exn Answer := do
  let (caller, callUuid) := request.identify
  let callerParam ←
    if caller.truthy then (quoteValue caller).map fun encoded => [("From=" : Str) ++ encoded]
    else .ok []
  let (uuidParam, activeCall) ←
    if callUuid.truthy then
      (callKey callUuid).map fun key => ([("CallUUID=" : Str) ++ rt.str callUuid], some key)
    else .ok ([], none)
  .ok ⟨xmlResponse (wsUrl request.host (callerParam ++ uuidParam)), activeCall⟩

/-- `query_call_uuid`: the key `handle_websocket` looks up, or the id of the
start frame. -/
def queryCallUuid (queryParams : Dict Str) (callId : Str) : Str :=
  queryParams.getD "CallUUID" callId

/-! ## Handing a call over -/

/-- The text of the `Stream` element. -/
def streamText (doc : Str) : Option Str := Xml.elementText "Stream" (Xml.tags doc)

/-- The query gives back the caller and the call UUID; without one,
`handle_websocket` keeps the id of the start frame. -/
structure ReadsBack (queryParams : Dict Str) (caller uuid : Str) : Prop where
  phone : callerPhone queryParams [] = caller
  callUuid : queryParams.getD "CallUUID" [] = uuid
  activeCall : ∀ callId, queryCallUuid queryParams callId = if uuid.isEmpty then callId else uuid

/-- The document is XML, and the URL in it reads back. -/
def HandsOver (doc caller uuid : Str) : Prop :=
  Xml.Document doc ∧
  ∃ url, streamText doc = some url ∧ ReadsBack (queryParams (urlQuery url)) caller uuid

/-- A call UUID that both layers leave as it is, though neither escapes it. -/
structure Legible (uuid : Str) : Prop where
  plain : Xml.Plain uuid
  close : ¬ ("]]>" : Str) <:+: uuid
  breaks : ∀ c ∈ uuid, isUrlBreak c = false
  fragment : '#' ∉ uuid
  plus : '+' ∉ uuid
  escapes : ¬ Escapes uuid

/-- The caller is the value of the first accepted key that has one. -/
def Carries (fields : Dict Str) (caller uuid : Str) : Prop :=
  (∃ front key back, callerKeys = front ++ key :: back ∧
    (∀ other ∈ front, fields.getD other [] = []) ∧ fields.get? key = some caller) ∧
  fields.getD "CallUUID" [] = uuid

/-- The ways fields reach the endpoint: in the query of either method, or in the
body of a POST. -/
inductive Delivery where
  | query (post : Bool) (contentType : Str)
  | json (contentType : { t : Str // contains t "application/json" = true })
  | form (contentType : { t : Str // contains t "application/json" = false })

def Delivery.request (rt : Runtime) (host : Option Authority) (fields : Dict Str) :
    Delivery → Request
  | .query post contentType => ⟨post, host, contentType, fields, .error ⟨rt.jsonError []⟩, .ok []⟩
  | .json contentType => ⟨true, host, contentType, [], .ok (.dict (textFields fields)), .ok []⟩
  | .form contentType => ⟨true, host, contentType, [], .error ⟨rt.jsonError []⟩, .ok fields⟩

variable {rt : Runtime} {host : Option Authority} {fields : Dict Str} {caller uuid : Str}

/-! ### Reading the request -/

theorem get?_textFields (fields : Dict Str) (key : Str) :
    (textFields fields).get? key = (fields.get? key).map .str := by
  induction fields with
  | nil => rfl
  | cons kv fields ih =>
    simp only [textFields, List.map_cons, Dict.get?] at ih ⊢
    split
    · rfl
    · exact ih

theorem getD_textFields (fields : Dict Str) (key : Str) :
    (textFields fields).getD key (.str []) = .str (fields.getD key []) := by
  rw [Dict.getD, get?_textFields, Dict.getD]
  cases fields.get? key <;> rfl

theorem firstCaller_carried (h : Carries fields caller uuid) (hne : caller ≠ []) :
    firstCaller (fun key => .str (fields.getD key [])) = .str caller := by
  obtain ⟨⟨front, key, back, hkeys, hfront, hkey⟩, -⟩ := h
  have hskip : (front.map fun key => Value.str (fields.getD key [])).find? Value.truthy = none := by
    rw [List.find?_eq_none]
    intro v hv
    obtain ⟨other, hother, rfl⟩ := List.mem_map.mp hv
    rw [hfront other hother]
    exact Bool.false_ne_true
  have hvalue : fields.getD key [] = caller := by rw [Dict.getD, hkey]; rfl
  have htruthy : (Value.str caller).truthy = true := by simp [Value.truthy, hne]
  rw [firstCaller, hkeys, List.map_append, List.map_cons, List.find?_append, hskip, hvalue,
    List.find?_cons_of_pos htruthy]
  rfl

theorem identify_query (request : Request)
    (hbody : ∀ fields, request.body = .ok fields → fields = [])
    (h : Carries request.query caller uuid) (hne : caller ≠ []) :
    request.identify = (.str caller, .str uuid) := by
  have htruthy : (Value.str caller).truthy = true := by simp [Value.truthy, hne]
  simp only [Request.identify, firstCaller_carried h hne, h.2, htruthy]
  split
  · split
    · rfl
    · rename_i fields hfields
      rw [hbody fields hfields]
      cases uuid <;> rfl
  · rfl

theorem identify_body (request : Request) (hpost : request.post = true)
    (hquery : request.query = []) (hbody : request.body = .ok (textFields fields))
    (h : Carries fields caller uuid) (hne : caller ≠ []) :
    request.identify = (.str caller, .str uuid) := by
  have hnone : firstCaller (fun key => .str (Dict.getD [] key [])) = .str [] := rfl
  simp only [Request.identify, hpost, hquery, hbody, hnone, getD_textFields,
    firstCaller_carried h hne, h.2]
  rfl

/-- Every delivery names the same caller and call. -/
theorem identify_request (h : Carries fields caller uuid) (hne : caller ≠ [])
    (delivery : Delivery) :
    (delivery.request rt host fields).identify = (.str caller, .str uuid) := by
  cases delivery with
  | query post contentType =>
    refine identify_query _ ?_ h hne
    intro read hread
    rw [Request.body] at hread
    split at hread
    · cases hread
    · cases hread
      rfl
  | json contentType => exact identify_body _ rfl rfl (if_pos contentType.property) h hne
  | form contentType =>
    exact identify_body _ rfl rfl (if_neg (Bool.eq_false_iff.mp contentType.property)) h hne

/-- The URL handed to the caller's line. -/
def callUrl (host : Option Authority) (caller uuid : Str) : Str :=
  wsUrl host (("From=" ++ quote caller) :: if uuid.isEmpty then [] else ["CallUUID=" ++ uuid])

/-- The document depends on the caller and the call alone. -/
theorem getVobizXml_request (h : Carries fields caller uuid) (hne : caller ≠ [])
    (delivery : Delivery) :
    getVobizXml rt (delivery.request rt host fields) =
      .ok ⟨xmlResponse (callUrl host caller uuid), if uuid.isEmpty then none else some (.str uuid)⟩ := by
  have hhost : (delivery.request rt host fields).host = host := by cases delivery <;> rfl
  have htruthy : (Value.str caller).truthy = true := by simp [Value.truthy, hne]
  rw [getVobizXml, identify_request h hne, hhost]
  simp only [htruthy, if_true]
  cases uuid <;> rfl

/-! ### Reading the document -/

/-- The characters of an address and of a quoted caller. -/
def isUrlChar (c : Char) : Bool :=
  isHostChar c || unreserved c || c == '%' || c == '/' || c == '?' || c == '='

theorem toNat_of_isUrlChar {c : Char} (h : isUrlChar c = true) : c.toNat < 128 := by
  by_cases halpha : c.isAlphanum = true
  · exact toNat_of_isAlphanum halpha
  · simp only [isUrlChar, isHostChar, unreserved, Bool.eq_false_iff.mpr halpha, Bool.or_eq_true,
      Bool.false_eq_true, false_or, beq_iff_eq] at h
    rcases h with ((((((((((rfl | rfl) | rfl) | rfl) | rfl) | rfl) |
      ((rfl | rfl) | rfl) | rfl) | rfl) | rfl) | rfl) | rfl) <;> decide

/-- None of them means anything to XML, and none ends a query or is taken out of it. -/
theorem isUrlChar_ascii : ∀ n < 128, isUrlChar (Char.ofNat n) = true →
    Xml.isChar (Char.ofNat n) = true ∧ isUrlBreak (Char.ofNat n) = false ∧
    Char.ofNat n ∉ ['<', '&', '>', '\r', '#'] := by
  decide

theorem isUrlChar_spec {c : Char} (h : isUrlChar c = true) :
    Xml.isChar c = true ∧ isUrlBreak c = false ∧ c ∉ ['<', '&', '>', '\r', '#'] := by
  have hascii := isUrlChar_ascii c.toNat (toNat_of_isUrlChar h)
  rw [c.ofNat_toNat] at hascii
  exact hascii h

/-- The URL up to the caller. -/
def callerUrl (host : Option Authority) (caller : Str) : Str :=
  address host ++ '?' :: ("From=" ++ quote caller)

theorem callUrl_of_nil : callUrl host caller [] = callerUrl host caller :=
  congrArg (fun params => address host ++ '?' :: params) List.intercalate_singleton

theorem callUrl_of_ne_nil (h : uuid ≠ []) :
    callUrl host caller uuid = ((callerUrl host caller ++ "&amp;CallUUID") ++ ['=']) ++ uuid := by
  have hjoin (a b : Str) : join "&amp;" [a, b] = (a ++ "&amp;") ++ b := by
    rw [join, List.intercalate_cons_cons, List.intercalate_singleton]
  have hparam : ("&amp;" : Str) ++ "CallUUID=" = "&amp;CallUUID" ++ ['='] := by decide
  have hurl : callUrl host caller uuid = address host ++ '?' ::
      join "&amp;" ["From=" ++ quote caller, "CallUUID=" ++ uuid] := by
    cases uuid with
    | nil => exact absurd rfl h
    | cons => rfl
  rw [hurl, hjoin, List.append_assoc, ← List.append_assoc _ _ uuid, hparam, callerUrl]
  simp only [List.append_assoc, List.cons_append]

theorem isHostChar_hostText {c : Char} (h : c ∈ hostText host) : isHostChar c = true := by
  cases host with
  | none => exact List.all_eq_true.mp (by decide : ("None" : Str).all isHostChar = true) c h
  | some host => exact List.all_eq_true.mp host.valid c h

/-- An address holds host characters and slashes. -/
theorem mem_address {c : Char} (h : c ∈ address host) : isHostChar c = true ∨ c = '/' := by
  rcases List.mem_append.mp h with h | h
  · rcases List.mem_append.mp h with h | h
    · have hscheme : ("wss://" : Str).all (fun c => isHostChar c || c == '/') = true := by decide
      simpa using List.all_eq_true.mp hscheme c h
    · exact Or.inl (isHostChar_hostText h)
  · have hpath : ("/ws/vobiz" : Str).all (fun c => isHostChar c || c == '/') = true := by decide
    simpa using List.all_eq_true.mp hpath c h

theorem isUrlChar_address {c : Char} (h : c ∈ address host) : isUrlChar c = true := by
  rcases mem_address h with h | rfl
  · simp [isUrlChar, h]
  · decide

theorem isUrlChar_callerUrl {c : Char} (h : c ∈ callerUrl host caller) : isUrlChar c = true := by
  rcases List.mem_append.mp h with h | h
  · exact isUrlChar_address h
  · rcases List.mem_cons.mp h with rfl | h
    · decide
    · rcases List.mem_append.mp h with h | h
      · have hname : ("From=" : Str).all isUrlChar = true := by decide
        exact List.all_eq_true.mp hname c h
      · rcases unreserved_quote h with h | rfl
        · simp [isUrlChar, h]
        · decide

theorem not_mem_callerUrl {c : Char} (h : c ∈ ['<', '&', '>', '\r', '#']) :
    c ∉ callerUrl host caller :=
  fun hmem => (isUrlChar_spec (isUrlChar_callerUrl hmem)).2.2 h

theorem isUrlBreak_callerUrl {c : Char} (h : c ∈ callerUrl host caller) : isUrlBreak c = false :=
  (isUrlChar_spec (isUrlChar_callerUrl h)).2.1

theorem plain_callerUrl : Xml.Plain (callerUrl host caller) := by
  intro c hc
  refine ⟨(isUrlChar_spec (isUrlChar_callerUrl hc)).1, ?_, ?_⟩
  · rintro rfl
    exact not_mem_callerUrl (by decide) hc
  · rintro rfl
    exact not_mem_callerUrl (by decide) hc

/-- A reader sees the address, the caller and what it makes of the call UUID. -/
theorem characterData_call (s : Str) :
    Xml.characterData (((callerUrl host caller ++ "&amp;CallUUID") ++ ['=']) ++ s) =
      (Xml.characterData s).map ((callerUrl host caller ++ "&CallUUID=") ++ ·) := by
  have hread : Xml.readData none ((callerUrl host caller ++ "&amp;CallUUID") ++ ['=']) =
      some (callerUrl host caller ++ "&CallUUID=") := by
    have hparam : Xml.readData none (("&amp;CallUUID" : Str) ++ ['=']) = some "&CallUUID=" := by
      decide
    rw [List.append_assoc, Xml.readData_append (Xml.readData_plain plain_callerUrl), hparam]
    rfl
  have hout {c : Char} (hc : c ∈ ['<', '&', '>', '\r', '#'])
      (hparam : c ∉ ("&amp;CallUUID" : Str) ++ ['=']) :
      c ∉ (callerUrl host caller ++ "&amp;CallUUID") ++ ['='] := by
    rw [List.append_assoc, List.mem_append, not_or]
    exact ⟨not_mem_callerUrl hc, hparam⟩
  exact Xml.characterData_append hread (hout (by decide) (by decide))
    (hout (by decide) (by decide)) (by decide) s

theorem urlQuery_callerUrl (rest : Str) :
    urlQuery (callerUrl host caller ++ rest) =
      ("From=" ++ quote caller) ++ (withoutBreaks rest).takeWhile (· ≠ '#') := by
  have hbreaks : ∀ c ∈ address host, isUrlBreak c = false :=
    fun _ h => (isUrlChar_spec (isUrlChar_address h)).2.1
  have hkept : withoutBreaks ("From=" ++ quote caller) = "From=" ++ quote caller := by
    rw [withoutBreaks_eq_self]
    intro c hc
    have hmem : c ∈ callerUrl host caller := List.mem_append_right _ (List.mem_cons_of_mem _ hc)
    exact isUrlBreak_callerUrl hmem
  have hfragment : '#' ∉ address host := fun h =>
    (isUrlChar_spec (isUrlChar_address h)).2.2 (by decide)
  have hquery : '?' ∉ address host := by
    intro h
    rcases mem_address h with h | h
    · exact absurd h (by decide)
    · cases h
  have hcaller : ∀ c ∈ ("From=" : Str) ++ quote caller, decide (c ≠ '#') = true := by
    intro c hc
    have hmem : c ∈ callerUrl host caller := List.mem_append_right _ (List.mem_cons_of_mem _ hc)
    exact decide_eq_true fun heq => not_mem_callerUrl (by decide) (heq ▸ hmem)
  rw [callerUrl, List.append_assoc, List.cons_append, urlQuery_append hbreaks hfragment hquery,
    withoutBreaks_append, hkept, List.takeWhile_append_of_pos hcaller]

/-! ### The stream element -/

def streamTag : Str :=
  "Stream bidirectional=\"true\" contentType=\"audio/x-mulaw;rate=8000\" keepCallAlive=\"true\""

theorem openStream_eq : openStream = '<' :: (streamTag ++ ['>']) := by decide +kernel

theorem closeStream_eq : closeStream = '<' :: "/Stream>\n</Response>" := rfl

theorem xmlResponse_eq (url : Str) :
    xmlResponse url =
      beforeStream ++ '<' :: (streamTag ++ '>' :: (url ++ '<' :: "/Stream>\n</Response>")) := by
  rw [xmlResponse, openStream_eq, closeStream_eq]
  simp only [List.append_assoc, List.cons_append, List.nil_append]

theorem streamText_eq {data : Str} (hdata : '<' ∉ data) (after : Str) :
    streamText (beforeStream ++ '<' :: (streamTag ++ '>' :: (data ++ '<' :: after))) =
      if (((after.splitOn '<').map Xml.tagPiece).map Prod.fst).head? = some "/Stream" then
        Xml.characterData data
      else none :=
  Xml.elementText_tags (by decide) (by decide) (by decide)
    (by decide) hdata after

theorem streamText_whole {url : Str} (h : '<' ∉ url) :
    streamText (xmlResponse url) = Xml.characterData url := by
  rw [xmlResponse_eq, streamText_eq h]
  exact if_pos (by decide)

/-- A `<` in the URL ends the text. -/
theorem streamText_cut {data rest text : Str} (hdata : '<' ∉ data)
    (h : streamText (xmlResponse (data ++ '<' :: rest)) = some text) :
    Xml.characterData data = some text := by
  rw [xmlResponse_eq, List.append_assoc, List.cons_append, streamText_eq hdata] at h
  split at h
  · exact h
  · cases h

def streamAttributes : Str :=
  " bidirectional=\"true\" contentType=\"audio/x-mulaw;rate=8000\" keepCallAlive=\"true\""

theorem attributes_streamAttributes :
    Xml.Attributes ["bidirectional", "contentType", "keepCallAlive"] streamAttributes := by
  have htext : streamAttributes = Xml.attributeOf "bidirectional" "true" ++
      (Xml.attributeOf "contentType" "audio/x-mulaw;rate=8000" ++
        (Xml.attributeOf "keepCallAlive" "true" ++ [])) := rfl
  rw [htext]
  refine .cons ?_ ?_ ?_ ?_ (.cons ?_ ?_ ?_ ?_ (.cons ?_ ?_ ?_ ?_ .nil)) <;> decide

theorem document_xmlResponse {url : Str} (h : (Xml.characterData url).isSome) :
    Xml.Document (xmlResponse url) := by
  have hstream : Xml.Element (Xml.elementOf "Stream" streamAttributes url) :=
    .tags (by decide) attributes_streamAttributes (.data h)
  have hspace : (Xml.characterData "\n    ").isSome = true := by decide
  have hend : (Xml.characterData "\n").isSome = true := by decide
  have hroot : Xml.Element (Xml.elementOf "Response" []
      ("\n    " ++ Xml.elementOf "Stream" streamAttributes url ++ "\n")) :=
    .tags (by decide) .nil (.element hspace hstream (.data hend))
  refine ⟨"\n", _, ?_, by decide, hroot⟩
  have hbefore : beforeStream =
      Xml.declaration ++ ("\n" ++ ('<' :: ("Response" ++ '>' :: "\n    "))) := rfl
  have htag : streamTag = "Stream" ++ streamAttributes := rfl
  have hafter : ("/Stream>\n</Response>" : Str) =
      '/' :: ("Stream" ++ '>' :: ("\n" ++ '<' :: '/' :: ("Response" ++ ['>']))) := rfl
  rw [xmlResponse_eq, hbefore, htag, hafter, Xml.elementOf, Xml.elementOf]
  simp only [List.append_assoc, List.cons_append, List.nil_append]

/-! ### Parsing the query -/

theorem formValue_from : formValue "From" = "From" := by decide

theorem formValue_callUuid : formValue "CallUUID" = "CallUUID" := by decide

theorem from_field (caller : Str) :
    '&' ∉ ("From=" : Str) ++ quote caller ∧
      formPair ("From=" ++ quote caller) = (("From" : Str), caller) := by
  have hname : ("From=" : Str) ++ quote caller = "From" ++ '=' :: quote caller := by
    have hlit : ("From=" : Str) = "From" ++ ['='] := by decide
    rw [hlit, List.append_assoc]
    rfl
  constructor
  · rw [List.mem_append, not_or]
    refine ⟨by decide, ?_⟩
    intro hmem
    rcases unreserved_quote hmem with h | h
    · exact absurd h (by decide)
    · cases h
  · rw [hname, formPair_append (by decide), formValue_quote, formValue_from]

theorem parseQsl_caller (caller : Str) :
    parseQsl ("From=" ++ quote caller) = [(("From" : Str), caller)] := by
  rw [parseQsl_field (from_field caller).1 (by simp), (from_field caller).2]

theorem parseQsl_call (caller query : Str) :
    parseQsl (("From=" ++ quote caller) ++ '&' :: query) =
      (("From" : Str), caller) :: parseQsl query := by
  rw [parseQsl_append (from_field caller).1 (by simp), (from_field caller).2]

theorem readsBack_caller (caller : Str) :
    ReadsBack (Dict.ofPairs [(("From" : Str), caller)]) caller [] := by
  have hphone : (Dict.ofPairs [(("From" : Str), caller)]).get? "From" = some caller :=
    Dict.get?_set_self _ _ _
  have hother : ("From" : Str) ≠ "CallUUID" := by decide
  have huuid : (Dict.ofPairs [(("From" : Str), caller)]).get? "CallUUID" = none :=
    Dict.get?_set_ne _ hother _
  refine ⟨congrArg (·.getD []) hphone, congrArg (·.getD []) huuid, ?_⟩
  intro callId
  exact congrArg (·.getD callId) huuid

theorem readsBack_call (caller : Str) (h : uuid ≠ []) :
    ReadsBack (Dict.ofPairs [(("From" : Str), caller), (("CallUUID" : Str), uuid)]) caller uuid := by
  have hother : ("CallUUID" : Str) ≠ "From" := by decide
  have hphone : (Dict.ofPairs [(("From" : Str), caller), (("CallUUID" : Str), uuid)]).get? "From" =
      some caller :=
    (Dict.get?_set_ne _ hother _).trans (Dict.get?_set_self _ _ _)
  have huuid : (Dict.ofPairs [(("From" : Str), caller), (("CallUUID" : Str), uuid)]).get?
      "CallUUID" = some uuid :=
    Dict.get?_set_self _ _ _
  refine ⟨congrArg (·.getD []) hphone, congrArg (·.getD []) huuid, ?_⟩
  intro callId
  rw [if_neg (by simp [h])]
  exact congrArg (·.getD callId) huuid

/-- The fields of the query: the caller, and what stands for the call UUID up to
a fragment. -/
theorem parseQsl_read (read : Str) :
    parseQsl (urlQuery ((callerUrl host caller ++ "&CallUUID=") ++ read)) =
      (("From" : Str), caller) ::
        parseQsl ("CallUUID" ++ '=' :: (withoutBreaks read).takeWhile (· ≠ '#')) := by
  have hkept : withoutBreaks "&CallUUID=" = "&CallUUID=" := by decide
  have hparam : ("&CallUUID=" : Str) = '&' :: ("CallUUID" ++ ['=']) := by decide
  have hname : ("&CallUUID=" : Str).all (fun c => decide (c ≠ '#')) = true := by decide
  rw [List.append_assoc, urlQuery_callerUrl, withoutBreaks_append, hkept,
    List.takeWhile_append_of_pos (List.all_eq_true.mp hname), hparam, List.cons_append,
    parseQsl_call, List.append_assoc]
  rfl

theorem takeWhile_of_not_mem {s : Str} {c : Char} (h : c ∉ s) : s.takeWhile (· ≠ c) = s := by
  rw [List.takeWhile_eq_self_iff]
  intro d hd
  exact decide_eq_true fun heq : d = c => h (heq ▸ hd)

theorem handsOver_nil : HandsOver (xmlResponse (callUrl host caller [])) caller [] := by
  have hread : Xml.characterData (callerUrl host caller) = some (callerUrl host caller) :=
    Xml.characterData_plain plain_callerUrl (not_mem_callerUrl (by decide))
      (Xml.not_close_of_not_mem (not_mem_callerUrl (by decide)))
  have hquery : urlQuery (callerUrl host caller ++ []) = _ := urlQuery_callerUrl []
  rw [callUrl_of_nil]
  refine ⟨document_xmlResponse (by rw [hread]; rfl), _,
    (streamText_whole (not_mem_callerUrl (by decide))).trans hread, ?_⟩
  rw [List.append_nil, withoutBreaks, List.filter_nil, List.takeWhile_nil,
    List.append_nil] at hquery
  rw [hquery, queryParams, parseQsl_caller]
  exact readsBack_caller caller

theorem Legible.carriage (h : Legible uuid) : '\r' ∉ uuid := by
  intro hmem
  have hbreak := h.breaks _ hmem
  cases hbreak

theorem handsOver_of_legible (hne : uuid ≠ []) (h : Legible uuid) :
    HandsOver (xmlResponse (callUrl host caller uuid)) caller uuid := by
  have hread : Xml.characterData (((callerUrl host caller ++ "&amp;CallUUID") ++ ['=']) ++ uuid) =
      some ((callerUrl host caller ++ "&CallUUID=") ++ uuid) := by
    rw [characterData_call, Xml.characterData_plain h.plain h.carriage h.close]
    rfl
  have hopen : '<' ∉ ((callerUrl host caller ++ "&amp;CallUUID") ++ ['=']) ++ uuid := by
    rw [List.mem_append, List.append_assoc, List.mem_append, not_or, not_or]
    exact ⟨⟨not_mem_callerUrl (by decide), by decide⟩, fun hmem => (h.plain _ hmem).2.1 rfl⟩
  rw [callUrl_of_ne_nil hne]
  refine ⟨document_xmlResponse (by rw [hread]; rfl), _, (streamText_whole hopen).trans hread, ?_⟩
  have hfield : '&' ∉ ("CallUUID" : Str) ++ '=' :: uuid := by
    rw [List.mem_append, not_or, List.mem_cons, not_or]
    exact ⟨by decide, by decide, fun hmem => (h.plain _ hmem).2.2 rfl⟩
  rw [queryParams, parseQsl_read, withoutBreaks_eq_self.mpr h.breaks,
    takeWhile_of_not_mem h.fragment, parseQsl_field hfield (by simp),
    formPair_append (by decide), formValue_callUuid, formValue_of_plain h.plus h.escapes]
  exact readsBack_call caller hne

theorem legible_nil : Legible [] where
  plain _ hc := absurd hc List.not_mem_nil
  close h := absurd h.length_le (by decide)
  breaks _ hc := absurd hc List.not_mem_nil
  fragment := List.not_mem_nil
  plus := List.not_mem_nil
  escapes := not_escapes_nil

/-- A reader sees no more of the call UUID than stands before its first `<`. -/
theorem exists_read (hne : uuid ≠ []) {url : Str}
    (h : streamText (xmlResponse (callUrl host caller uuid)) = some url) :
    ∃ read, Xml.characterData (uuid.takeWhile (· ≠ '<')) = some read ∧
      url = (callerUrl host caller ++ "&CallUUID=") ++ read := by
  have hlead : '<' ∉ (callerUrl host caller ++ "&amp;CallUUID") ++ ['='] := by
    rw [List.append_assoc, List.mem_append, not_or]
    exact ⟨not_mem_callerUrl (by decide), by decide⟩
  have hdata {seen : Str} (hseen : '<' ∉ seen) :
      '<' ∉ ((callerUrl host caller ++ "&amp;CallUUID") ++ ['=']) ++ seen := by
    rw [List.mem_append, not_or]
    exact ⟨hlead, hseen⟩
  have hread : Xml.characterData (((callerUrl host caller ++ "&amp;CallUUID") ++ ['=']) ++
      uuid.takeWhile (· ≠ '<')) = some url := by
    rw [callUrl_of_ne_nil hne] at h
    by_cases hmem : '<' ∈ uuid
    · obtain ⟨seen, rest, rfl, hseen⟩ := List.eq_append_cons_of_mem hmem
      have hstop : (seen ++ '<' :: rest).takeWhile (· ≠ '<') = seen := by
        have hkeep : ∀ c ∈ seen, decide (c ≠ '<') = true := fun c hc =>
          decide_eq_true fun heq : c = '<' => hseen (heq ▸ hc)
        rw [List.takeWhile_append_of_pos hkeep, List.takeWhile_cons_of_neg (by decide),
          List.append_nil]
      rw [← List.append_assoc] at h
      rw [hstop]
      exact streamText_cut (hdata hseen) h
    · rw [streamText_whole (hdata hmem)] at h
      rw [takeWhile_of_not_mem hmem]
      exact h
  rw [characterData_call] at hread
  obtain ⟨read, hcall, rfl⟩ := Option.map_eq_some_iff.mp hread
  exact ⟨read, hcall, rfl⟩

/-- The call UUID is read back from its own text only where nothing in it is
decoded: every step of the reading shortens what it changes, but for line ends
and pluses, and those it never gives back. -/
theorem legible_of_handsOver (hne : uuid ≠ [])
    (h : HandsOver (xmlResponse (callUrl host caller uuid)) caller uuid) : Legible uuid := by
  obtain ⟨-, url, htext, hback⟩ := h
  obtain ⟨read, hread, rfl⟩ := exists_read hne htext
  have hget : (queryParams (urlQuery ((callerUrl host caller ++ "&CallUUID=") ++ read))).get?
      "CallUUID" = some uuid := by
    have hcall := hback.callUuid
    rw [Dict.getD] at hcall
    cases hlookup : (queryParams (urlQuery ((callerUrl host caller ++ "&CallUUID=") ++ read))).get?
        "CallUUID" with
    | none => rw [hlookup] at hcall; exact absurd hcall.symm hne
    | some value => rw [hlookup] at hcall; exact congrArg some hcall
  have hmem := Dict.mem_of_get?_ofPairs hget
  rw [parseQsl_read] at hmem
  have hraw : (("CallUUID" : Str), uuid) ∈
      parseQsl ("CallUUID" ++ '=' :: (withoutBreaks read).takeWhile (· ≠ '#')) := by
    rcases List.mem_cons.mp hmem with heq | hraw
    · have hother : ("CallUUID" : Str) ≠ "From" := by decide
      exact absurd (congrArg Prod.fst heq) hother
    · exact hraw
  -- Each reading is at most as long as what it reads, and together they give
  -- back the whole length: none of them shortens.
  have hopen := List.takeWhile_prefix (fun c => decide (c ≠ '<')) (l := uuid)
  have hbreaks : List.Sublist (withoutBreaks read) read := List.filter_sublist
  have hfragment := List.takeWhile_prefix (fun c => decide (c ≠ '#')) (l := withoutBreaks read)
  have hends := Xml.length_lineEnds (uuid.takeWhile (· ≠ '<'))
  have hopenLength := hopen.length_le
  have hbreaksLength := hbreaks.length_le
  have hfragmentLength := hfragment.length_le
  have hvalueLength := length_formValue ((withoutBreaks read).takeWhile (· ≠ '#'))
  obtain ⟨hclose, hread⟩ := Xml.characterData_length hread
  have hsame : uuid.length ≤ (withoutBreaks read).length ∧
      uuid = formValue ((withoutBreaks read).takeWhile (· ≠ '#')) := by
    have hraw' : uuid.length < ((withoutBreaks read).takeWhile (· ≠ '#')).length ∨
        '&' ∉ (withoutBreaks read).takeWhile (· ≠ '#') ∧
          uuid = formValue ((withoutBreaks read).takeWhile (· ≠ '#')) :=
      mem_parseQsl_raw (by decide) (by decide) hraw
    rcases hraw' with hlong | ⟨-, hvalue⟩
    · rcases hread with hshort | ⟨hlines, -⟩
      · omega
      · have := congrArg List.length hlines
        omega
    · have := congrArg List.length hvalue
      exact ⟨by omega, hvalue⟩
  obtain ⟨hlength, hvalue⟩ := hsame
  have hwhole := congrArg List.length hvalue
  have hseen : uuid.takeWhile (· ≠ '<') = uuid := by
    refine hopen.eq_of_length ?_
    rcases hread with hshort | ⟨hlines, -⟩
    · omega
    · have := congrArg List.length hlines
      omega
  have hread' : read = Xml.lineEnds uuid ∧ Xml.Plain read := by
    rw [hseen] at hread
    exact hread.resolve_left (by omega)
  have hreadLength : read.length ≤ uuid.length := by
    rw [hread'.1]
    exact Xml.length_lineEnds uuid
  have hkept : withoutBreaks read = read := hbreaks.eq_of_length (by omega)
  rw [hkept] at hfragment hfragmentLength hvalue hwhole hlength hvalueLength
  have hrest : read.takeWhile (· ≠ '#') = read := hfragment.eq_of_length (by omega)
  rw [hrest] at hvalue hwhole
  obtain ⟨hescapes, hplus⟩ := formValue_of_length (s := read) (by omega)
  have hspaced : uuid = plusToSpace read := hvalue.trans hplus
  have hcarriage : '\r' ∉ uuid := by
    intro hmem
    rw [hspaced] at hmem
    obtain ⟨c, hc, hreturn⟩ := List.mem_map.mp hmem
    split at hreturn
    · cases hreturn
    · exact Xml.not_mem_lineEnds uuid (hread'.1 ▸ hreturn ▸ hc)
  have hlines : Xml.lineEnds uuid = uuid := by
    have := Xml.lineEnds_append hcarriage []
    rwa [List.append_nil, Xml.lineEnds, List.append_nil] at this
  obtain rfl : read = uuid := hread'.1.trans hlines
  exact {
    plain := hread'.2
    close := hseen ▸ hclose
    breaks := withoutBreaks_eq_self.mp hkept
    fragment := fun hmem => by
      have := List.takeWhile_eq_self_iff.mp hrest _ hmem
      simp at this
    plus := hspaced ▸ not_mem_plusToSpace read
    escapes := hspaced ▸ hescapes }

/-- The three deliveries give one document, and it hands the call over exactly
when the call UUID needs none of the escapes it is not given. -/
theorem handed_over_iff (rt : Runtime) (host : Option Authority) {fields : Dict Str}
    {caller uuid : Str} (hne : caller ≠ []) (h : Carries fields caller uuid) :
    ∃ answer, (∀ delivery : Delivery,
        getVobizXml rt (delivery.request rt host fields) = .ok answer) ∧
      (answer.activeCall = if uuid.isEmpty then none else some (.str uuid)) ∧
      (HandsOver answer.xml caller uuid ↔ Legible uuid) := by
  refine ⟨_, getVobizXml_request h hne, rfl, ?_⟩
  by_cases huuid : uuid = []
  · subst huuid
    exact iff_of_true handsOver_nil legible_nil
  · exact ⟨legible_of_handsOver huuid, handsOver_of_legible huuid⟩

/-- A call as the carrier announces it, with a call UUID of one's choice. -/
def announced (uuid : Str) : Dict Str := [("From", "+91-9388062467"), ("CallUUID", uuid)]

theorem carries_announced (uuid : Str) : Carries (announced uuid) "+91-9388062467" uuid := by
  have hother : ("From" : Str) ≠ "CallUUID" := by decide
  refine ⟨⟨[], "From", _, rfl, fun _ hother => absurd hother List.not_mem_nil, if_pos rfl⟩, ?_⟩
  rw [announced, Dict.getD, Dict.get?, if_neg hother, Dict.get?, if_pos rfl]
  rfl

theorem handed_over_iff_announced :
    ∃ answer, (∀ delivery : Delivery, getVobizXml Runtime.ascii
        (delivery.request Runtime.ascii none (announced "d27c-41")) = .ok answer) ∧
      (answer.activeCall = if ("d27c-41" : Str).isEmpty then none else some (.str "d27c-41")) ∧
      (HandsOver answer.xml "+91-9388062467" "d27c-41" ↔ Legible "d27c-41") :=
  handed_over_iff Runtime.ascii none (by decide) (carries_announced "d27c-41")

/-- An ampersand in the call UUID, which unlike the caller is not quoted, leaves a
document that is no XML. -/
theorem ampersand_not_handed_over :
    ∃ answer, (∀ delivery : Delivery, getVobizXml Runtime.ascii
        (delivery.request Runtime.ascii none (announced "d27c&41")) = .ok answer) ∧
      ¬ HandsOver answer.xml "+91-9388062467" "d27c&41" := by
  refine ⟨_, getVobizXml_request (carries_announced "d27c&41") (by decide), ?_⟩
  intro h
  have hplain := (legible_of_handsOver (by decide) h).plain '&' (by decide)
  exact hplain.2.2 rfl

end TechMart.Main
