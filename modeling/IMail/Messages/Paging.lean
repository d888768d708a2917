import IMail.Mail.SyncPlan
import IMail.Messages.Queries
import IMail.Text.Json

/-!
# Following the cursors

`GET /messages` and the gateway's listing give a cursor with each page that is not the last: date
and id of the last message, as JSON in base64. A client that follows the cursors gets the whole
result in pages.
-/

namespace IMail

open Text Relational

/-- `serde_json::to_vec` of a cursor, as text. -/
def cursorJson (cursor : MessageCursor) : String :=
  String.ofList (['\x7b', '"', 'd', 'a', 't', 'e', '"', ':', '"'] ++
    (escapeJson cursor.date.toList ++ '"' :: ([',', '"', 'i', 'd', '"', ':', '"'] ++
      (escapeJson cursor.id.toList ++ '"' :: ['\x7d']))))

def cursorBytes (cursor : MessageCursor) : List UInt8 := (cursorJson cursor).toByteArray.data.toList

/-- `serde_json::from_slice` of a cursor, which reads what `to_vec` writes. -/
class CursorJson where
  fromSlice : List UInt8 → Option MessageCursor
  fromSlice_toVec : ∀ cursor, fromSlice (cursorBytes cursor) = some cursor

/-- `message_cursor`, and `encode_cursor` of the gateway. -/
def messageCursor (m : Message) : String := base64UrlEncode (cursorBytes m.cursor)

/-- `decode_message_cursor`; the gateway makes the same checks in `validate_query` and
`decode_cursor`. -/
def decodeMessageCursor [CursorJson] (value : String) : Option MessageCursor :=
  if value.isEmpty || 1000 < value.utf8ByteSize then none
  else
    ((base64UrlDecode value).bind CursorJson.fromSlice).filter fun cursor =>
      !cursor.date.isEmpty && !cursor.id.isEmpty

/-- The decoder takes the cursor of the message. -/
def Message.CursorFits (m : Message) : Prop :=
  m.date ≠ "" ∧ m.id ≠ "" ∧ (messageCursor m).utf8ByteSize ≤ 1000

instance (m : Message) : Decidable m.CursorFits := inferInstanceAs (Decidable (_ ∧ _ ∧ _))

def readCursor (bytes : List UInt8) : Option MessageCursor :=
  (String.fromUTF8? ⟨bytes.toArray⟩).bind fun text =>
    (readJsonString (text.toList.drop 9)).bind fun (date, rest) =>
      (readJsonString (rest.drop 7)).map fun (id, _) => ⟨String.ofList date, String.ofList id⟩

theorem fromUTF8_toByteArray (s : String) :
    String.fromUTF8? ⟨s.toByteArray.data.toList.toArray⟩ = some s := by
  rw [Array.toArray_toList]
  exact dif_pos s.isValidUTF8

theorem readCursor_bytes (cursor : MessageCursor) :
    readCursor (cursorBytes cursor) = some cursor := by
  have hdate : ∀ rest : List Char,
      (['\x7b', '"', 'd', 'a', 't', 'e', '"', ':', '"'] ++ rest).drop 9 = rest := fun _ => rfl
  have hid : ∀ rest : List Char, ([',', '"', 'i', 'd', '"', ':', '"'] ++ rest).drop 7 = rest :=
    fun _ => rfl
  rw [readCursor, cursorBytes, fromUTF8_toByteArray, Option.bind_some, cursorJson,
    String.toList_ofList, hdate, readJsonString_escape, Option.bind_some]
  simp only [hid, readJsonString_escape, Option.map_some, String.ofList_toList]

@[reducible] def CursorJson.plain : CursorJson where
  fromSlice := readCursor
  fromSlice_toVec := readCursor_bytes

theorem messageCursor_nonempty (m : Message) : (messageCursor m).isEmpty = false := by
  rw [Bool.eq_false_iff]
  intro h
  have hdecode := base64UrlDecode_encode (cursorBytes m.cursor)
  rw [← messageCursor, String.isEmpty_iff.mp h] at hdecode
  have hbytes : cursorBytes m.cursor = [] := (Option.some.inj hdecode).symm
  have hread := readCursor_bytes m.cursor
  rw [hbytes] at hread
  cases hread

theorem decodeMessageCursor_messageCursor [CursorJson] {m : Message} (h : m.CursorFits) :
    decodeMessageCursor (messageCursor m) = some m.cursor := by
  obtain ⟨hdate, hid, hsize⟩ := h
  have haccept : ((messageCursor m).isEmpty || decide (1000 < (messageCursor m).utf8ByteSize)) =
      false := by
    rw [messageCursor_nonempty, Bool.false_or]
    exact decide_eq_false (not_lt.mpr hsize)
  rw [decodeMessageCursor, haccept, if_neg (by decide), messageCursor, base64UrlDecode_encode,
    Option.bind_some, CursorJson.fromSlice_toVec]
  apply Option.filter_eq_some_iff.mpr
  refine ⟨rfl, ?_⟩
  simp [Message.cursor, hdate, hid]

inductive ReadError
  | invalidRequest
  | repository (error : AuthStoreError)
  deriving DecidableEq, Repr

def requestedMessageCursor [CursorJson] : Option String → Except ReadError (Option MessageCursor)
  | none => .ok none
  | some value =>
    match decodeMessageCursor value with
    | some cursor => .ok (some cursor)
    | none => .error .invalidRequest

structure MessagesBody where
  messages : List Message
  total : ℕ
  nextOffset : ℕ
  nextCursor : Option String
  hasMore : Bool
  deriving DecidableEq, Repr

structure GatewayMessagesBody where
  messages : List Message
  nextCursor : Option String
  hasMore : Bool
  deriving DecidableEq, Repr

section

variable [Platform] [Sqlite] [CursorJson]

/-- `GET /messages` with the other parameters fixed. -/
def listMessagesPage (db : Db) (index : BodyIndex) (owner : String) (query : MessageQuery) (now : String)
    (cursor : Option String) : Except ReadError MessagesBody := do
  let cursor ← requestedMessageCursor cursor
  let page ← (queryMessages db index owner { query with cursor } now).mapError .repository
  return {
    messages := page.messages
    total := page.total
    nextOffset := query.offset + page.messages.length
    nextCursor := if page.hasMore then page.messages.getLast?.map messageCursor else none
    hasMore := page.hasMore }

/-- The gateway's listing; a message goes out with the address of its account. -/
def listGatewayPage (db : Db) (index : BodyIndex) (owner : String) (query : GatewayMessageQuery)
    (now : String) (cursor : Option String) : Except ReadError GatewayMessagesBody := do
  let cursor ← requestedMessageCursor cursor
  let page ← (queryGatewayMessages db index owner { query with cursor } now).mapError .repository
  return {
    messages := page.messages.filter fun m => db.ownsAccount owner m.accountId
    nextCursor := if page.hasMore then page.messages.getLast?.map messageCursor else none
    hasMore := page.hasMore }

def MessagesBody.page (body : MessagesBody) : Page Message String ℕ :=
  ⟨body.messages, body.hasMore, body.nextCursor, body.total⟩

def GatewayMessagesBody.page (body : GatewayMessagesBody) : Page Message String Unit :=
  ⟨body.messages, body.hasMore, body.nextCursor, ()⟩

omit [Platform] [Sqlite] in
theorem requestedMessageCursor_messageCursor {m : Message} (h : m.CursorFits) :
    requestedMessageCursor (some (messageCursor m)) = .ok (some m.cursor) := by
  rw [requestedMessageCursor, decodeMessageCursor_messageCursor h]

variable {db : Db} (hids : UniqueBy (fun m => some m.id) db.messages) (index : BodyIndex)
  (owner now : String)

include hids

theorem listMessagesPage_eq {query : MessageQuery} (hvalid : ValidFilters query.filters)
    (hoffset : query.offset = 0) {value : Option String} {cursor : Option MessageCursor}
    (hcursor : requestedMessageCursor value = .ok cursor) :
    (listMessagesPage db index owner query now value).toOption.map MessagesBody.page =
      some (pageOf messageCursor (wholeResult db (query.clauses index owner now)).length query.limit
        (behind cursor (wholeResult db (query.clauses index owner now)))) := by
  have hquery := @queryMessages_eq _ _ db hids index owner now { query with cursor } hvalid hoffset
  simp only [listMessagesPage, hcursor, hquery, Except.mapError, bind, Except.bind, pure, Except.pure]
  simp only [Except.toOption, Option.map_some, MessagesBody.page, pageOf, decide_eq_true_eq]
  rfl

theorem listGatewayPage_eq {query : GatewayMessageQuery} (hvalid : ValidFilters query.filters)
    {value : Option String} {cursor : Option MessageCursor}
    (hcursor : requestedMessageCursor value = .ok cursor) :
    (listGatewayPage db index owner query now value).toOption.map GatewayMessagesBody.page =
      some (pageOf messageCursor () query.limit
        (behind cursor (wholeResult db (query.clauses index owner now)))) := by
  have hquery := @queryGatewayMessages_eq _ _ db hids index owner now { query with cursor } hvalid
  have hown : ∀ m ∈ (behind cursor (wholeResult db (query.clauses index owner now))).take
      query.limit, db.ownsAccount owner m.accountId = true := by
    intro m hm
    exact ownsAccount_of_wholeResult (by simp [GatewayMessageQuery.clauses])
      (mem_of_behind (List.mem_of_mem_take hm))
  simp only [listGatewayPage, hcursor, hquery, Except.mapError, bind, Except.bind, pure,
    Except.pure]
  simp only [Except.toOption, Option.map_some, GatewayMessagesBody.page, pageOf, decide_eq_true_eq]
  rw [show ({ query with cursor } : GatewayMessageQuery).clauses index owner now =
    query.clauses index owner now from rfl, List.filter_eq_self.mpr hown]

/-- Following the cursors of either listing from the first page ends, and gives the whole result in
pages of the asked size, newest first, if the decoder takes the cursors of the messages in it. -/
theorem cursor_pages_partition :
    (∀ query : MessageQuery, ValidFilters query.filters → query.offset = 0 → 1 ≤ query.limit →
      (∀ m ∈ wholeResult db (query.clauses index owner now), m.CursorFits) →
      ∃ pages, Partition query.limit (wholeResult db (query.clauses index owner now)).length
          (wholeResult db (query.clauses index owner now)) pages ∧
        ∀ fuel, (wholeResult db (query.clauses index owner now)).length < fuel →
          follow (fun cursor =>
            (listMessagesPage db index owner query now cursor).toOption.map MessagesBody.page)
              fuel none = some pages) ∧
    ∀ query : GatewayMessageQuery, ValidFilters query.filters → 1 ≤ query.limit →
      (∀ m ∈ wholeResult db (query.clauses index owner now), m.CursorFits) →
      ∃ pages, Partition query.limit () (wholeResult db (query.clauses index owner now)) pages ∧
        ∀ fuel, (wholeResult db (query.clauses index owner now)).length < fuel →
          follow (fun cursor =>
            (listGatewayPage db index owner query now cursor).toOption.map
              GatewayMessagesBody.page) fuel none = some pages := by
  constructor
  · intro query hvalid hoffset hlimit hfits
    have hfirst := @listMessagesPage_eq _ _ _ db hids index owner now query hvalid hoffset none none rfl
    refine (ascending_wholeResult hids _).follow_from hlimit ?_ (List.nil_append _).symm hfirst
    intro m hm
    exact listMessagesPage_eq hids index owner now hvalid hoffset
      (requestedMessageCursor_messageCursor (hfits m hm))
  · intro query hvalid hlimit hfits
    have hfirst := @listGatewayPage_eq _ _ _ db hids index owner now query hvalid none none rfl
    refine (ascending_wholeResult hids _).follow_from hlimit ?_ (List.nil_append _).symm hfirst
    intro m hm
    exact listGatewayPage_eq hids index owner now hvalid
      (requestedMessageCursor_messageCursor (hfits m hm))

end

def pagedMessage (id date : String) : Message :=
  { id, accountId := "a", mailbox := "INBOX", mailboxRole := "inbox", uid := 1, date }

def pagedDb (dates : List (String × String)) : Db where
  accounts := [{ id := "a", userId := "u", email := "a@example.com", createdAt := 0 }]
  messages := dates.map fun (id, date) => pagedMessage id date

def noBodies : BodyIndex := ⟨fun _ => 0, []⟩

theorem cursor_pages_partition_ties :
    let _ := Platform.plain
    let _ := Sqlite.plain
    let _ := CursorJson.plain
    let db := pagedDb [("1", "2026"), ("2", "2025"), ("3", "2026")]
    let query : MessageQuery := { limit := 2 }
    (wholeResult db (query.clauses noBodies "u" "now")).map (·.id) = ["3", "1", "2"] ∧
      ∃ pages, Partition 2 3 (wholeResult db (query.clauses noBodies "u" "now")) pages ∧
        follow (fun cursor =>
          (listMessagesPage db noBodies "u" query "now" cursor).toOption.map MessagesBody.page)
            4 none = some pages := by
  intro platform sqlite json db query
  have hresult : (wholeResult db (query.clauses noBodies "u" "now")).map (·.id) = ["3", "1", "2"] := by
    subst db query platform sqlite json
    decide +kernel
  have hfits : ∀ m ∈ wholeResult db (query.clauses noBodies "u" "now"), m.CursorFits := by
    subst db query platform sqlite json
    decide +kernel
  have hlength : (wholeResult db (query.clauses noBodies "u" "now")).length = 3 := by
    simpa using congrArg List.length hresult
  obtain ⟨pages, hpages, hfollow⟩ := (cursor_pages_partition
    (UniqueBy.of_nodup_map (by decide)) noBodies "u" "now").1 query (fun f hf => nomatch hf) rfl
    (by decide) hfits
  rw [hlength] at hpages hfollow
  exact ⟨hresult, pages, hpages, hfollow 4 (by decide)⟩

/-- The cursor of a message without a date is refused, and what is behind it is never reached. -/
theorem empty_date_stops_paging :
    let _ := Platform.plain
    let _ := Sqlite.plain
    let _ := CursorJson.plain
    let db := pagedDb [("1", ""), ("2", "")]
    let query : MessageQuery := { limit := 1 }
    UniqueBy (fun m => some m.id) db.messages ∧
      (wholeResult db (query.clauses noBodies "u" "now")).map (·.id) = ["2", "1"] ∧
      ∀ fuel, follow (fun cursor =>
        (listMessagesPage db noBodies "u" query "now" cursor).toOption.map MessagesBody.page)
          fuel none = none := by
  intro platform sqlite json db query
  refine ⟨UniqueBy.of_nodup_map (by decide), by subst db query platform sqlite json; decide +kernel,
    ?_⟩
  have hfirst : (listMessagesPage db noBodies "u" query "now" none).toOption.map MessagesBody.page =
      some ⟨[pagedMessage "2" ""], true, some (messageCursor (pagedMessage "2" "")), 2⟩ := by
    subst db query platform sqlite json
    decide +kernel
  have hsecond : (listMessagesPage db noBodies "u" query "now"
      (some (messageCursor (pagedMessage "2" "")))).toOption.map MessagesBody.page = none := by
    subst db query platform sqlite json
    decide +kernel
  intro fuel
  match fuel with
  | 0 => rfl
  | 1 => rw [follow, hfirst, Option.bind_some, if_pos rfl, follow, Option.map_none]
  | fuel + 2 =>
    rw [follow, hfirst, Option.bind_some, if_pos rfl, follow, hsecond, Option.bind_none,
      Option.map_none]

end IMail
