import KiteRail.GoStrconv
import KiteRail.Keyset
import KiteRail.LedgerAnchor
import KiteRail.ProxyHandler
import KiteRail.TimeText
import KiteRail.UrlQuery

namespace KiteRail.Ledger
open Bytes Json Keyset GoStrconv
open Proxy (Request)

/-- An entry as a JSON object, with the text of its timestamp. -/
def document (e : Ledger) (timestamp : Bytes) : Json :=
  .obj [(lit "seq_num", .num (decimal e.seqNum)), (lit "timestamp", .str timestamp),
    (lit "agent", .str e.agent), (lit "tool", .str e.tool), (lit "decision", .str e.decision),
    (lit "policy_rule", .str e.policyRule), (lit "payload_hash", .str e.payloadHash),
    (lit "prev_hash", .str e.prevHash), (lit "hash", .str e.hash),
    (lit "request_id", .str e.requestID), (lit "policy_version", .str e.policyVersion)]

def marshalError (text : Bytes) : GoError :=
  .wrap (msg "json: error calling MarshalJSON for type time.Time: Time.MarshalJSON: ")
    (.text [.text text])

def marshalDocument (e : Ledger) : Except GoError Json :=
  (e.timestamp.marshalText.mapError marshalError).map (document e)

def marshalEntry (e : Ledger) : Except GoError Bytes := (marshalDocument e).map encode

def marshalEntries (rows : List Ledger) : Except GoError Bytes :=
  (rows.mapM marshalDocument).map fun documents => encode (.arr documents)

/-- `ListLedgerPageParams`; the page size is positive and at most `maxPageSize`. -/
structure ListLedgerPageParams where
  beforeSeq : ℤ
  agent : Bytes
  decision : Bytes
  tool : Bytes
  pageSize : ℤ

/-- An empty filter matches everything. -/
def matchesText (filter value : Bytes) : Bool := filter == [] || value == filter

def ListLedgerPageParams.selects (arg : ListLedgerPageParams) (e : Ledger) : Bool :=
  decide (e.seqNum < arg.beforeSeq) && (matchesText arg.agent e.agent &&
    matchesText arg.decision e.decision && matchesText arg.tool e.tool)

/-- The query `ListLedgerPage` on a table. -/
def listLedgerPage (arg : ListLedgerPageParams) (table : List Ledger) : List Ledger :=
  ((table.filter arg.selects).insertionSort fun a b => b.seqNum ≤ a.seqNum).take arg.pageSize.toNat

structure PageQuery where
  beforeSeq : ℤ
  limit : ℤ
  agent : Bytes
  decision : Bytes
  tool : Bytes

abbrev PageReader := ListLedgerPageParams → Except GoError (List Ledger)

/-- `Store.Page`. -/
def page (read : PageReader) (p : PageQuery) : Except GoError (List Ledger) :=
  let before := if p.beforeSeq ≤ 0 then maxInt64 else p.beforeSeq
  match read ⟨before, p.agent, p.decision, p.tool, p.limit⟩ with
  | .error err => .error (.wrap (msg "failed to query ledger page: ") err)
  | .ok entries => .ok entries

def defaultPageSize : ℤ := 100

def maxPageSize : ℤ := 1000

def pageLimit (v : Bytes) : Option ℤ :=
  if v = [] then some defaultPageSize
  else (parseInt v).filter fun n => 1 ≤ n && n ≤ maxPageSize

def pageBefore (v : Bytes) : Option ℤ :=
  if v = [] then some 0 else (parseInt v).filter fun n => 1 ≤ n

/-- An error, or a body with status 200 and the header `X-Next-Before`. -/
inductive PageResponse
  | failed (status : ℕ) (body : Bytes)
  | sent (body : Bytes) (nextBefore : Option Bytes)
  deriving DecidableEq

/-- `X-Next-Before` is set after a full page. -/
def nextBefore (limit : ℤ) (rows : List Ledger) : Option Bytes :=
  if (rows.length : ℤ) = limit then rows.getLast?.map fun e => decimal e.seqNum else none

/-- `Encode` of the entries. Its error is only logged, and then nothing was written. -/
def pageBody (rows : List Ledger) : Bytes :=
  match marshalEntries rows with
  | .ok text => text ++ [10]
  | .error _ => []

def handleQuery (read : PageReader) (r : Request) : PageResponse :=
  if r.method ≠ lit "GET" then .failed 405 (lit "Method not allowed")
  else
    let q := (UrlQuery.parseQuery r.url.rawQuery).1
    match pageLimit (UrlQuery.get q (lit "limit")) with
    | none => .failed 400 (lit "\x7b\"error\": \"limit must be between 1 and 1000\"\x7d")
    | some limit =>
      match pageBefore (UrlQuery.get q (lit "before")) with
      | none => .failed 400 (lit "\x7b\"error\": \"before must be a positive sequence number\"\x7d")
      | some beforeSeq =>
        match page read ⟨beforeSeq, limit, UrlQuery.get q (lit "agent"),
          UrlQuery.get q (lit "decision"), UrlQuery.get q (lit "tool")⟩ with
        | .error _ => .failed 500 (lit "Internal server error")
        | .ok rows => .sent (pageBody rows) (nextBefore limit rows)

/-- What a client asks for with all its requests. -/
structure Search where
  limit : ℤ
  agent : Bytes
  decision : Bytes
  tool : Bytes
  positive : 1 ≤ limit
  bounded : limit ≤ maxPageSize

def Search.wants (s : Search) (e : Ledger) : Bool :=
  matchesText s.agent e.agent && matchesText s.decision e.decision && matchesText s.tool e.tool

/-- The request asks for entries before the given text. -/
structure Asks (s : Search) (before : Bytes) (r : Request) : Prop where
  method : r.method = lit "GET"
  limit : pageLimit (UrlQuery.get (UrlQuery.parseQuery r.url.rawQuery).1 (lit "limit")) =
    some s.limit
  before : UrlQuery.get (UrlQuery.parseQuery r.url.rawQuery).1 (lit "before") = before
  agent : UrlQuery.get (UrlQuery.parseQuery r.url.rawQuery).1 (lit "agent") = s.agent
  decision : UrlQuery.get (UrlQuery.parseQuery r.url.rawQuery).1 (lit "decision") = s.decision
  tool : UrlQuery.get (UrlQuery.parseQuery r.url.rawQuery).1 (lit "tool") = s.tool

abbrev AppendPool := Pool AppendOp AppendRes DB (Option GoError)

/-- A row as the driver returns it, in a zone that gives every instant its offset. -/
def returned (zone : ℤ → ℤ) (e : Ledger) : Ledger := e.inZone (zone e.timestamp.unixNano)

def table (zone : ℤ → ℤ) (c : AppendPool) : List Ledger := c.shared.rows.map (returned zone)

def reads (zone : ℤ → ℤ) (c : AppendPool) : PageReader :=
  fun arg => .ok (listLedgerPage arg (table zone c))

/-- A client that follows `X-Next-Before`, from a first request on the ledger `c`: the bodies so
far, the last header and the ledger after any appends in between. -/
inductive Walk (s : Search) (zone : ℤ → ℤ) (c : AppendPool) :
    List Bytes → Option Bytes → AppendPool → Prop
  | first {r : Request} {body : Bytes} {next : Option Bytes} (hr : Asks s [] r)
      (hpage : handleQuery (reads zone c) r = .sent body next) : Walk s zone c [body] next c
  | next {bodies : List Bytes} {cursor : Bytes} {d e : AppendPool}
      {ls : List (Label AppendOp AppendRes)} {r : Request} {body : Bytes}
      {next : Option Bytes} (hwalk : Walk s zone c bodies (some cursor) d)
      (hrun : Run DB.machine.semantics AppendCall d ls e) (hr : Asks s cursor r)
      (hpage : handleQuery (reads zone e) r = .sent body next) :
      Walk s zone c (bodies ++ [body]) next e

def Lists (body : Bytes) (rows : List Ledger) : Prop :=
  ∃ text, marshalEntries rows = .ok text ∧ body = text ++ [10]

section Pages
variable {s : Search} {table rows : List Ledger} {r : Request}

def Search.newest (s : Search) (table : List Ledger) : List Ledger := (table.filter s.wants).reverse

lemma Search.newest_append (s : Search) (table more : List Ledger) :
    s.newest (table ++ more) = s.newest more ++ s.newest table := by
  simp [Search.newest]

lemma Search.mem_newest {e : Ledger} : e ∈ s.newest table ↔ e ∈ table ∧ s.wants e = true := by
  simp [Search.newest]

lemma descending_newest (h : table.Pairwise fun a b => a.seqNum < b.seqNum) :
    Descending seqNum (s.newest table) :=
  List.pairwise_reverse.mpr (h.filter _)

lemma listLedgerPage_eq (h : table.Pairwise fun a b => a.seqNum < b.seqNum) (before : ℤ) :
    listLedgerPage ⟨before, s.agent, s.decision, s.tool, s.limit⟩ table =
      (below seqNum before (s.newest table)).take s.limit.toNat := by
  have hbelow : below seqNum before (s.newest table) = (table.filter (ListLedgerPageParams.selects
      ⟨before, s.agent, s.decision, s.tool, s.limit⟩)).reverse := by
    rw [below, Search.newest, List.filter_reverse, List.filter_filter]
    rfl
  have hdesc : Descending seqNum (below seqNum before (s.newest table)) :=
    (descending_newest h).below
  rw [hbelow] at hdesc ⊢
  rw [listLedgerPage, insertionSort_eq (List.reverse_perm _).symm hdesc]

lemma handleQuery_accepted {before : Bytes} {b : ℤ} (table : List Ledger) (hr : Asks s before r)
    (hb : pageBefore before = some b) :
    let rows := listLedgerPage
      ⟨if b ≤ 0 then maxInt64 else b, s.agent, s.decision, s.tool, s.limit⟩ table
    handleQuery (fun arg => .ok (listLedgerPage arg table)) r =
      .sent (pageBody rows) (nextBefore s.limit rows) := by
  unfold handleQuery
  rw [if_neg (not_not_intro hr.method)]
  simp only [hr.limit, hr.before, hb, hr.agent, hr.decision, hr.tool, page]

lemma handleQuery_refused {before : Bytes} {read : PageReader} (hr : Asks s before r)
    (hb : pageBefore before = none) : handleQuery read r =
      .failed 400 (lit "\x7b\"error\": \"before must be a positive sequence number\"\x7d") := by
  unfold handleQuery
  rw [if_neg (not_not_intro hr.method)]
  simp only [hr.limit, hr.before, hb]

lemma handleQuery_asks {before : Bytes} {b : ℤ}
    (h : table.Pairwise fun a b => a.seqNum < b.seqNum) (hr : Asks s before r)
    (hb : pageBefore before = some b) :
    let first := (below seqNum (if b ≤ 0 then maxInt64 else b) (s.newest table)).take s.limit.toNat
    handleQuery (fun arg => .ok (listLedgerPage arg table)) r =
      .sent (pageBody first) (nextBefore s.limit first) := by
  have hpage := handleQuery_accepted table hr hb
  simp only [listLedgerPage_eq h] at hpage
  exact hpage

lemma below_newest_append {more : List Ledger} (h : ValidChain (table ++ more)) {b : ℤ}
    (hb : b ≤ table.length + 1) :
    below seqNum b (s.newest (table ++ more)) = below seqNum b (s.newest table) := by
  have hmore : below seqNum b (s.newest more) = [] := by
    refine List.filter_eq_nil_iff.mpr fun e he => ?_
    obtain ⟨i, hi⟩ := List.mem_iff_getElem?.mp (Search.mem_newest.mp he).1
    have hat : (table ++ more)[table.length + i]? = some e := by
      rwa [List.getElem?_append_right (Nat.le_add_right _ _), Nat.add_sub_cancel_left]
    have hseq := h.seqNum_of_getElem? hat
    push_cast at hseq
    simp only [decide_eq_true_eq]
    omega
  rw [Search.newest_append, below, List.filter_append]
  exact congrArg (· ++ below seqNum b (s.newest table)) hmore

lemma below_below {a b : ℤ} (h : a ≤ b) (xs : List Ledger) :
    below seqNum a (below seqNum b xs) = below seqNum a xs := by
  rw [below, below, List.filter_filter]
  refine List.filter_congr fun e _ => ?_
  simp only [Bool.and_eq_left_iff_imp, decide_eq_true_eq]
  omega

end Pages

section Progress
variable {listed : List Ledger} {n : ℕ}

/-- How far the pages of `n` entries have come in the list. -/
inductive Progress (listed : List Ledger) (n : ℕ) : List (List Ledger) → Option Bytes → Prop
  | finished {pages : List (List Ledger)} (hall : pages.flatten = listed)
      (hcount : (pages.length - 1) * n ≤ listed.length) : Progress listed n pages none
  | ongoing {pages : List (List Ledger)} {before after : List Ledger} {last : Ledger}
      (hpages : pages.flatten = before ++ [last]) (hlisted : listed = before ++ last :: after)
      (hcount : pages.flatten.length = pages.length * n) :
      Progress listed n pages (some (decimal last.seqNum))

/-- One more page: the next entries, and the header that goes with them. -/
lemma progress_page (pages : List (List Ledger)) (rest : List Ledger) (hn : 0 < n)
    (hlisted : listed = pages.flatten ++ rest)
    (hcount : pages.flatten.length = pages.length * n) :
    Progress listed n (pages ++ [rest.take n]) (nextBefore n (rest.take n)) := by
  have hflat : (pages ++ [rest.take n]).flatten = pages.flatten ++ rest.take n := by simp
  by_cases hfull : (rest.take n).length = n
  · obtain ⟨init, last, hpage⟩ : ∃ init last, rest.take n = init ++ [last] := by
      rcases List.eq_nil_or_concat' (rest.take n) with hnil | hpage
      · rw [hnil] at hfull
        exact absurd hfull hn.ne
      · exact hpage
    have hnext : nextBefore n (rest.take n) = some (decimal last.seqNum) := by
      rw [nextBefore, if_pos (congrArg Nat.cast hfull), hpage, List.getLast?_concat]
      rfl
    have hrest : rest = init ++ last :: rest.drop n := by
      have hsplit := List.take_append_drop n rest
      rw [hpage] at hsplit
      simpa using hsplit.symm
    rw [hnext]
    have hpages : (pages ++ [rest.take n]).flatten = (pages.flatten ++ init) ++ [last] := by
      rw [hflat, hpage, List.append_assoc]
    have hall : listed = (pages.flatten ++ init) ++ last :: rest.drop n := by
      rw [List.append_assoc, ← hrest, hlisted]
    refine .ongoing hpages hall ?_
    rw [hflat, List.length_append, hcount, hfull, List.length_append, List.length_singleton]
    ring
  · -- a page that is not full has everything that was left
    have hshort : rest.length < n := by
      rw [List.length_take] at hfull
      omega
    have htake : rest.take n = rest := List.take_of_length_le hshort.le
    have hnext : nextBefore n (rest.take n) = none :=
      if_neg fun heq => hfull (Nat.cast_injective heq)
    rw [hnext]
    refine .finished (by rw [hflat, htake, hlisted]) ?_
    have hlen : (pages ++ [rest.take n]).length - 1 = pages.length := by simp
    rw [hlen, hlisted, List.length_append, hcount]
    exact Nat.le_add_right _ _

lemma Progress.count {pages : List (List Ledger)} {next : Option Bytes}
    (h : Progress listed n pages next) : (pages.length - 1) * n ≤ listed.length := by
  cases h with
  | finished _ hcount => exact hcount
  | @ongoing before after last hpages hlisted hcount =>
    have hlen : pages.flatten.length ≤ listed.length := by
      rw [hpages, hlisted]
      simp
    calc (pages.length - 1) * n ≤ pages.length * n := Nat.mul_le_mul_right n (Nat.sub_le _ _)
      _ = pages.flatten.length := hcount.symm
      _ ≤ listed.length := hlen

end Progress

section Walks
variable {s : Search} {zone : ℤ → ℤ} {base : List Ledger} {ls ms : List (Label AppendOp AppendRes)}
  {c d : AppendPool} {bodies : List Bytes} {pages : List (List Ledger)} {next : Option Bytes}
  {r : Request}

/-- What the pages of a walk from the ledger `c` list. -/
def Search.listed (s : Search) (zone : ℤ → ℤ) (c : AppendPool) : List Ledger :=
  below seqNum maxInt64 (s.newest (table zone c))

lemma limit_toNat (s : Search) : (s.limit.toNat : ℤ) = s.limit := by
  have hpos := s.positive
  omega

lemma readBack_table (zone : ℤ → ℤ) (c : AppendPool) :
    List.Forall₂ ReadBack c.shared.rows (table zone c) :=
  List.forall₂_map_right_iff.mpr (List.forall₂_same.mpr fun _ _ => ⟨_, rfl⟩)

lemma table_of_run (zone : ℤ → ℤ) (hrun : Run DB.machine.semantics AppendCall c ls d) :
    ∃ more, table zone d = table zone c ++ more := by
  obtain ⟨more, hmore⟩ := DB.rows_of_run hrun
  exact ⟨more.map (returned zone), by rw [table, hmore, List.map_append]; rfl⟩

lemma length_of_run (hrun : Run DB.machine.semantics AppendCall c ls d) :
    c.shared.rows.length ≤ d.shared.rows.length := by
  obtain ⟨more, hmore⟩ := DB.rows_of_run hrun
  simp [hmore]

/-- The driver returns a chain as long as the numbers last. -/
lemma table_valid (zone : ℤ → ℤ) (hbase : ValidChain base)
    (hr : Run DB.machine.semantics AppendCall (Pool.initial (DB.ofRows base)) ls c)
    (hroom : (c.shared.rows.length : ℤ) ≤ maxInt64) : ValidChain (table zone c) :=
  ((DB.sound_run hbase hr).inv.chain hroom).readBack (readBack_table zone c)

lemma Walk.run (h : Walk s zone c bodies next d) :
    ∃ ls, Run DB.machine.semantics AppendCall c ls d := by
  induction h with
  | first => exact ⟨_, .nil _⟩
  | next _ hrun _ _ ih =>
    obtain ⟨ls, hls⟩ := ih
    exact ⟨_, hls.trans hrun⟩

lemma handleQuery_first (hc : ValidChain (table zone c)) (hr : Asks s [] r) :
    handleQuery (reads zone c) r = .sent (pageBody ((s.listed zone c).take s.limit.toNat))
      (nextBefore s.limit ((s.listed zone c).take s.limit.toNat)) := by
  have hstart : pageBefore [] = some 0 := rfl
  have hpage := handleQuery_asks hc.sorted hr hstart
  rw [if_pos le_rfl] at hpage
  exact hpage

lemma handleQuery_next {more before after : List Ledger} {last : Ledger}
    (hd : ValidChain (table zone d)) (hmore : table zone d = table zone c ++ more)
    (hlisted : s.listed zone c = before ++ last :: after)
    (hr : Asks s (decimal last.seqNum) r) :
    handleQuery (reads zone d) r = .sent (pageBody (after.take s.limit.toNat))
      (nextBefore s.limit (after.take s.limit.toNat)) := by
  have hmem : last ∈ s.listed zone c := by simp [hlisted]
  obtain ⟨hnewest, hbelow⟩ := List.mem_filter.mp hmem
  obtain ⟨i, hi⟩ := List.mem_iff_getElem?.mp (Search.mem_newest.mp hnewest).1
  have hlt : i < (table zone c).length := (List.getElem?_eq_some_iff.mp hi).1
  have hat : (table zone d)[i]? = some last := by rw [hmore, List.getElem?_append_left hlt, hi]
  have hseq : last.seqNum = ((i + 1 : ℕ) : ℤ) := by
    rw [hd.seqNum_of_getElem? hat]
    push_cast
    rfl
  have hmax : last.seqNum < maxInt64 := of_decide_eq_true hbelow
  have hcursor : pageBefore (decimal last.seqNum) = some last.seqNum := by
    rw [hseq] at hmax ⊢
    have hparse := parseInt_decimal hmax.le
    have hne : decimal ((i + 1 : ℕ) : ℤ) ≠ [] := decimalNat_ne_nil _
    rw [pageBefore, if_neg hne, hparse]
    simp
  have hrest : below seqNum last.seqNum (s.newest (table zone d)) = after := by
    have hchain : ValidChain (table zone c ++ more) := hmore ▸ hd
    rw [hmore, below_newest_append hchain (by omega), ← below_below hmax.le]
    have hsorted := (List.pairwise_append.mp hchain.sorted).1
    have hdesc : Descending seqNum (s.listed zone c) := (descending_newest hsorted).below
    rw [hlisted] at hdesc
    exact (congrArg (below seqNum last.seqNum) hlisted).trans (below_key hdesc)
  have hpos : ¬ last.seqNum ≤ 0 := by omega
  have hpage := handleQuery_asks hd.sorted hr hcursor
  rw [if_neg hpos, hrest] at hpage
  exact hpage

lemma Progress.page {cursor : Bytes} (hd : ValidChain (table zone d))
    (hrun : Run DB.machine.semantics AppendCall c ms d)
    (h : Progress (s.listed zone c) s.limit.toNat pages (some cursor)) (hask : Asks s cursor r) :
    ∃ rest, s.listed zone c = pages.flatten ++ rest ∧
      pages.flatten.length = pages.length * s.limit.toNat ∧
      handleQuery (reads zone d) r = .sent (pageBody (rest.take s.limit.toNat))
        (nextBefore s.limit (rest.take s.limit.toNat)) := by
  obtain ⟨more, hmore⟩ := table_of_run zone hrun
  generalize hcursor : some cursor = header at h
  cases h with
  | finished => simp at hcursor
  | @ongoing before after last hpages hlisted hcount =>
    obtain rfl := Option.some.inj hcursor
    refine ⟨after, ?_, hcount, handleQuery_next hd hmore hlisted hask⟩
    rw [hlisted, hpages, List.append_assoc]
    rfl

/-- Along a walk that ends before the numbers are used up. -/
lemma Walk.progress (hbase : ValidChain base)
    (hr : Run DB.machine.semantics AppendCall (Pool.initial (DB.ofRows base)) ls c)
    (h : Walk s zone c bodies next d) (hroom : (d.shared.rows.length : ℤ) ≤ maxInt64) :
    ∃ pages, bodies = pages.map pageBody ∧
      Progress (s.listed zone c) s.limit.toNat pages next := by
  have hpos : 0 < s.limit.toNat := by
    have hpositive := s.positive
    omega
  induction h with
  | first hask hpage =>
    rw [handleQuery_first (table_valid zone hbase hr hroom) hask] at hpage
    obtain ⟨rfl, rfl⟩ := PageResponse.sent.inj hpage
    have hone := progress_page [] (s.listed zone c) hpos rfl (by simp)
    rw [limit_toNat] at hone
    exact ⟨_, rfl, hone⟩
  | next hwalk hrun hask hpage ih =>
    obtain ⟨ls, hls⟩ := hwalk.run
    have hbefore := length_of_run hrun
    obtain ⟨pages, rfl, hprogress⟩ := ih (by omega)
    have hchain := table_valid zone hbase (hr.trans (hls.trans hrun)) hroom
    obtain ⟨rest, hlisted, hcount, hanswer⟩ := hprogress.page hchain (hls.trans hrun) hask
    rw [hanswer] at hpage
    obtain ⟨rfl, rfl⟩ := PageResponse.sent.inj hpage
    have hmore := progress_page _ rest hpos hlisted hcount
    rw [limit_toNat] at hmore
    exact ⟨_, by simp, hmore⟩

/-- Without a row at the largest number, everything wanted is listed. -/
lemma listed_eq (hc : ValidChain (table zone c))
    (hfit : (c.shared.rows.length : ℤ) < maxInt64) :
    s.listed zone c = s.newest (table zone c) := by
  refine List.filter_eq_self.mpr fun e he => ?_
  obtain ⟨i, hi⟩ := List.mem_iff_getElem?.mp (Search.mem_newest.mp he).1
  have hlt : i < (table zone c).length := (List.getElem?_eq_some_iff.mp hi).1
  have hlen : (table zone c).length = c.shared.rows.length := List.length_map _
  have hseq := hc.seqNum_of_getElem? hi
  simp only [decide_eq_true_eq]
  omega

lemma marshalDocument_eq {e : Ledger} (h : e.timestamp.Strict) :
    marshalDocument e = .ok (document e e.timestamp.formatRFC3339Nano) := by
  rw [marshalDocument, Time.marshalText_of_strict h]
  rfl

lemma marshalEntries_eq {rows : List Ledger} (h : ∀ e ∈ rows, e.timestamp.Strict) :
    marshalEntries rows =
      .ok (encode (.arr (rows.map fun e => document e e.timestamp.formatRFC3339Nano))) := by
  have hmap : rows.mapM marshalDocument =
      .ok (rows.map fun e => document e e.timestamp.formatRFC3339Nano) := by
    induction rows with
    | nil => rfl
    | cons e rows ih =>
      rw [List.forall_mem_cons] at h
      rw [List.mapM_cons, ih h.2, marshalDocument_eq h.1]
      rfl
  rw [marshalEntries, hmap]
  rfl

lemma lists_pageBody {rows : List Ledger} (h : ∀ e ∈ rows, e.timestamp.Strict) :
    Lists (pageBody rows) rows := by
  have hok := marshalEntries_eq h
  exact ⟨_, hok, by rw [pageBody, hok]⟩

lemma length_newest_table (s : Search) (zone : ℤ → ℤ) (c : AppendPool) :
    (s.newest (table zone c)).length = (c.shared.rows.filter s.wants).length := by
  rw [Search.newest, List.length_reverse, table, List.filter_map, List.length_map]
  rfl

lemma mem_newest_table {e : Ledger} : e ∈ s.newest (table zone c) ↔
    ∃ row ∈ c.shared.rows, s.wants row = true ∧ e = row.returned zone := by
  rw [Search.mem_newest, table, List.mem_map]
  constructor
  · rintro ⟨⟨row, hrow, rfl⟩, hwants⟩
    exact ⟨row, hrow, hwants, rfl⟩
  · rintro ⟨row, hrow, hwants, rfl⟩
    exact ⟨⟨row, hrow, rfl⟩, hwants⟩

/-- Listing the ledger page by page, while entries are appended and the numbers last: every
cursor is accepted, there is a bound on the number of pages, and together they are the wanted
entries that were committed when the first page was read, newest first. -/
theorem pages_complete (s : Search) (zone : ℤ → ℤ) {base : List Ledger} (hbase : ValidChain base)
    {ls : List (Label AppendOp AppendRes)} {c : AppendPool}
    (hr : Run DB.machine.semantics AppendCall (Pool.initial (DB.ofRows base)) ls c)
    (hfit : (c.shared.rows.length : ℤ) < maxInt64)
    (htimes : ∀ row ∈ c.shared.rows, s.wants row = true → (row.returned zone).timestamp.Strict) :
    (∀ r, Asks s [] r → ∃ body next, handleQuery (reads zone c) r = .sent body next) ∧
    (∀ bodies cursor d, Walk s zone c bodies (some cursor) d →
      ∀ ms e, Run DB.machine.semantics AppendCall d ms e →
      (e.shared.rows.length : ℤ) ≤ maxInt64 →
      ∀ r, Asks s cursor r → ∃ body next, handleQuery (reads zone e) r = .sent body next) ∧
    (∀ bodies next d, Walk s zone c bodies next d → (d.shared.rows.length : ℤ) ≤ maxInt64 →
      bodies.length ≤ (c.shared.rows.filter s.wants).length / s.limit.toNat + 1) ∧
    ∀ bodies d, Walk s zone c bodies none d → (d.shared.rows.length : ℤ) ≤ maxInt64 →
      ∃ pages, List.Forall₂ Lists bodies pages ∧
        pages.flatten.Pairwise (fun a b => b.seqNum < a.seqNum) ∧
        ∀ e, e ∈ pages.flatten ↔
          ∃ row ∈ c.shared.rows, s.wants row = true ∧ e = row.returned zone := by
  have hchain := table_valid zone hbase hr hfit.le
  have hlisted := listed_eq (s := s) hchain hfit
  refine ⟨fun r hask => ⟨_, _, handleQuery_first hchain hask⟩, ?_, ?_, ?_⟩
  · intro bodies cursor d hwalk ms e hrun hroom r hask
    obtain ⟨ls', hls⟩ := hwalk.run
    have hbefore := length_of_run hrun
    obtain ⟨pages, -, hprogress⟩ := hwalk.progress hbase hr (by omega)
    have hlater := table_valid zone hbase (hr.trans (hls.trans hrun)) hroom
    obtain ⟨rest, -, -, hanswer⟩ := hprogress.page hlater (hls.trans hrun) hask
    exact ⟨_, _, hanswer⟩
  · intro bodies next d hwalk hroom
    have hpos : 0 < s.limit.toNat := by
      have hpositive := s.positive
      omega
    obtain ⟨pages, rfl, hprogress⟩ := hwalk.progress hbase hr hroom
    have hcount := hprogress.count
    rw [hlisted, length_newest_table] at hcount
    have hle := (Nat.le_div_iff_mul_le hpos).mpr hcount
    rw [List.length_map]
    omega
  · intro bodies d hwalk hroom
    obtain ⟨pages, rfl, hprogress⟩ := hwalk.progress hbase hr hroom
    generalize hnone : (none : Option Bytes) = next at hprogress
    cases hprogress with
    | ongoing => simp at hnone
    | finished hall _ =>
      rw [hlisted] at hall
      have hmem : ∀ e, e ∈ pages.flatten ↔
          ∃ row ∈ c.shared.rows, s.wants row = true ∧ e = row.returned zone :=
        fun e => hall ▸ mem_newest_table
      refine ⟨pages, ?_, hall ▸ descending_newest hchain.sorted, hmem⟩
      refine List.forall₂_map_left_iff.mpr (List.forall₂_same.mpr fun rows hrows => ?_)
      refine lists_pageBody fun e he => ?_
      obtain ⟨row, hrow, hwants, rfl⟩ := (hmem e).mp (List.mem_flatten.mpr ⟨rows, hrows, he⟩)
      exact htimes row hrow hwants

end Walks

section Sample

def pageRequest (query : String) : Request where
  method := lit "GET"
  url := ⟨[], [], lit "/", [], lit query⟩
  header := ∅
  body := ⟨[], none⟩
  identity := none

def oneByOne : Search where
  limit := 1
  agent := []
  decision := []
  tool := []
  positive := by decide
  bounded := by decide

def PageResponse.cursor : PageResponse → Option (Option Bytes)
  | .failed _ _ => none
  | .sent _ next => some next

lemma sent_of_cursor {response : PageResponse} {next : Option Bytes}
    (h : response.cursor = some next) : ∃ body, response = .sent body next := by
  cases response with
  | failed status body => simp [PageResponse.cursor] at h
  | sent body next' =>
    obtain rfl := Option.some.inj h
    exact ⟨body, rfl⟩

/-- Two entries are listed one by one, while a third is appended; the last page is empty. -/
theorem pages_complete_sample : ∃ ls c d bodies pages,
    Run DB.machine.semantics AppendCall (Pool.initial (DB.ofRows [])) ls c ∧
      c.shared.rows.map agent = [lit "a", lit "b"] ∧
      Walk oneByOne (fun _ => 3600) c bodies none d ∧
      d.shared.rows.map agent = [lit "a", lit "b", lit "c"] ∧ bodies.length = 3 ∧
      List.Forall₂ Lists bodies pages ∧ ∀ e, e ∈ pages.flatten ↔
        ∃ row ∈ c.shared.rows, oneByOne.wants row = true ∧ e = row.returned fun _ => 3600 := by
  have hplay : (DB.machine.play overlappingAppends (Pool.initial (DB.ofRows []))).bind (fun c =>
      (DB.machine.play laterAppend c).map fun d => (c.shared.rows.map agent,
        decide (∀ row ∈ c.shared.rows, (row.returned fun _ => 3600).timestamp.Strict),
        d.shared.rows.map agent)) =
      some ([lit "a", lit "b"], true, [lit "a", lit "b", lit "c"]) := by decide +kernel
  have hpages : (DB.machine.play overlappingAppends (Pool.initial (DB.ofRows []))).bind (fun c =>
      (DB.machine.play laterAppend c).map fun d =>
        [(c, "limit=1"), (d, "limit=1&before=2"), (d, "limit=1&before=1")].map fun asked =>
          (handleQuery (reads (fun _ => 3600) asked.1) (pageRequest asked.2)).cursor) =
      some [some (some (lit "2")), some (some (lit "1")), some none] := by decide +kernel
  obtain ⟨c, hc, hlater⟩ := Option.bind_eq_some_iff.mp hplay
  obtain ⟨d, hd, hfacts⟩ := Option.map_eq_some_iff.mp hlater
  simp only [Prod.mk.injEq, decide_eq_true_eq] at hfacts
  obtain ⟨hagents, htimes, hagents'⟩ := hfacts
  rw [hc, Option.bind_some, hd, Option.map_some, Option.some.injEq] at hpages
  simp only [List.map_cons, List.map_nil, List.cons.injEq, and_true] at hpages
  obtain ⟨hfirst, hsecond, hthird⟩ := hpages
  obtain ⟨body₁, hpage₁⟩ := sent_of_cursor hfirst
  obtain ⟨body₂, hpage₂⟩ := sent_of_cursor hsecond
  obtain ⟨body₃, hpage₃⟩ := sent_of_cursor hthird
  obtain ⟨ls, hr⟩ := Machine.play_run overlappingAppends_calls hc
  obtain ⟨ms, hrun⟩ := Machine.play_run laterAppend_calls hd
  have hwalk : Walk oneByOne (fun _ => 3600) c ([body₁] ++ [body₂] ++ [body₃]) none d := by
    refine .next (.next (.first ⟨rfl, by decide, rfl, rfl, rfl, rfl⟩ hpage₁) hrun ?_ hpage₂)
      (.nil d) ?_ hpage₃
    · exact ⟨rfl, by decide, by decide, by decide, by decide, by decide⟩
    · exact ⟨rfl, by decide, by decide, by decide, by decide, by decide⟩
  have hfit : (c.shared.rows.length : ℤ) < maxInt64 := by
    rw [← List.length_map (f := agent), hagents]
    decide
  have hroom : (d.shared.rows.length : ℤ) ≤ maxInt64 := by
    rw [← List.length_map (f := agent), hagents']
    decide
  obtain ⟨pages, hlists, -, hmem⟩ := (pages_complete oneByOne (fun _ => 3600) validChain_nil hr
    hfit fun row hrow _ => htimes row hrow).2.2.2 _ _ hwalk hroom
  exact ⟨ls, c, d, _, pages, hr, hagents, hwalk, hagents', rfl, hlists, hmem⟩

section Incomplete

def byAgent : Search := { oneByOne with agent := lit "a" }

lemma byAgent_wants (e : Ledger) : byAgent.wants e = (e.agent == lit "a") := by
  have hname : (lit "a" == []) = false := by decide
  simp only [Search.wants, matchesText, byAgent, oneByOne, hname, Bool.false_or, BEq.rfl,
    Bool.true_or, Bool.and_true]

lemma handleQuery_short {before : Bytes} {b : ℤ} (c : AppendPool) {r : Request}
    {rows : List Ledger} (hr : Asks byAgent before r) (hb : pageBefore before = some b)
    (hrows : c.shared.rows.filter (ListLedgerPageParams.selects
      ⟨if b ≤ 0 then maxInt64 else b, lit "a", [], [], 1⟩) = rows) (hshort : rows.length ≤ 1) :
    handleQuery (reads (fun _ => 0) c) r = .sent (pageBody (rows.map (returned fun _ => 0)))
      (nextBefore 1 (rows.map (returned fun _ => 0))) := by
  have hlist : listLedgerPage ⟨if b ≤ 0 then maxInt64 else b, lit "a", [], [], 1⟩
      (table (fun _ => 0) c) = rows.map (returned fun _ => 0) := by
    have hfilter := congrArg (List.map (returned fun _ => 0)) hrows
    rw [listLedgerPage, table, List.filter_map]
    refine (congrArg (List.take 1) (congrArg (List.insertionSort _) hfilter)).trans ?_
    match rows, hshort with
    | [], _ => rfl
    | [row], _ => rfl
  have hpage := handleQuery_accepted (table (fun _ => 0) c) hr hb
  rw [show (⟨if b ≤ 0 then maxInt64 else b, byAgent.agent, byAgent.decision, byAgent.tool,
    byAgent.limit⟩ : ListLedgerPageParams) =
      ⟨if b ≤ 0 then maxInt64 else b, lit "a", [], [], 1⟩ from rfl, hlist] at hpage
  exact hpage

section Selects
variable (b : ℤ) {e : Ledger} {xs : List Ledger}

lemma selects_agent (he : e.agent = lit "a") :
    ListLedgerPageParams.selects ⟨b, lit "a", [], [], 1⟩ e = decide (e.seqNum < b) := by
  have hwants := byAgent_wants e
  rw [he, BEq.rfl] at hwants
  exact (congrArg (decide (e.seqNum < b) && ·) hwants).trans (Bool.and_true _)

lemma filter_others (hxs : ∀ e ∈ xs, e.agent = []) :
    xs.filter (ListLedgerPageParams.selects ⟨b, lit "a", [], [], 1⟩) = [] := by
  refine List.filter_eq_nil_iff.mpr fun e he => ?_
  have hwants := byAgent_wants e
  rw [hxs e he, show (([] : Bytes) == lit "a") = false by decide] at hwants
  rw [ListLedgerPageParams.selects, Bool.and_eq_true, not_and]
  exact fun _ hother => Bool.false_ne_true (hwants.symm.trans hother)

end Selects

/-- A ledger that has used up the numbers: its last entry is on no page. -/
lemma last_number_unlisted : ∃ ls c e,
    Run DB.machine.semantics AppendCall (Pool.initial (DB.ofRows [])) ls c ∧
      e ∈ c.shared.rows ∧ byAgent.wants e = true ∧ e.seqNum = maxInt64 ∧
      Walk byAgent (fun _ => 0) c [lit "[]" ++ [10]] none c := by
  have hempty : (Pool.initial (DB.ofRows []) : AppendPool).shared.rows = [] := rfl
  have hstamp : (sampleEntry []).timestamp.isZero = false := by decide
  obtain ⟨ls, c, more, hr, hq, hrows, hlen, hmore⟩ := append_many (n := (maxInt64 - 1).toNat)
    validChain_nil (.nil _) ⟨rfl, fun _ => rfl⟩ hstamp (by rw [hempty]; decide)
  rw [hempty, List.nil_append] at hrows
  have hroom : (c.shared.rows.length : ℤ) = maxInt64 - 1 := by
    rw [hrows, hlen]
    decide
  have hstamp' : (sampleEntry (lit "a")).timestamp.isZero = false := by decide
  obtain ⟨ms, d, hrun, -, hrows'⟩ := append_run validChain_nil hr hq (by omega) hstamp'
  have hseq := (follows_nextRow c.shared.rows (sampleEntry (lit "a"))).seq_eq (by omega)
  have hagent := nextRow_agent c.shared.rows (sampleEntry (lit "a"))
  have hask : Asks byAgent [] (pageRequest "limit=1&agent=a") :=
    ⟨rfl, by decide, by decide, by decide, by decide, by decide⟩
  have hnone : d.shared.rows.filter (ListLedgerPageParams.selects
      ⟨if (0 : ℤ) ≤ 0 then maxInt64 else 0, lit "a", [], [], 1⟩) = [] := by
    rw [hrows', hrows, List.filter_append, filter_others _ hmore, List.nil_append, ← hrows,
      List.filter_singleton, selects_agent _ hagent, hseq, if_pos le_rfl]
    rw [decide_eq_false (by omega)]
    rfl
  refine ⟨_, d, _, hr.trans hrun, by rw [hrows']; exact List.mem_concat_self, ?_, by omega,
    .first hask (handleQuery_short d hask rfl hnone (by simp))⟩
  rw [byAgent_wants, hagent]
  decide

/-- A ledger with one number left and one entry of the agent, and what two more appends make of
it: another entry of the agent, with the smallest number. -/
lemma exists_wrapping : ∃ ls c first more ms d other row,
    Run DB.machine.semantics AppendCall (Pool.initial (DB.ofRows [])) ls c ∧
      (c.shared.rows.length : ℤ) = maxInt64 - 1 ∧ c.shared.rows = first :: more ∧
      first.agent = lit "a" ∧ first.seqNum = 1 ∧ (∀ e ∈ more, e.agent = []) ∧
      Run DB.machine.semantics AppendCall c ms d ∧
      d.shared.rows = first :: (more ++ other ++ [row]) ∧ (∀ e ∈ other, e.agent = []) ∧
      row.agent = lit "a" ∧ row.seqNum = -maxInt64 - 1 := by
  have hstamp : (sampleEntry []).timestamp.isZero = false := by decide
  have hstamp' : (sampleEntry (lit "a")).timestamp.isZero = false := by decide
  have hempty : (Pool.initial (DB.ofRows []) : AppendPool).shared.rows = [] := rfl
  obtain ⟨ls₀, c₀, hr₀, hq₀, hrows₀⟩ := append_run validChain_nil (.nil _)
    ⟨rfl, fun _ => rfl⟩ (by rw [hempty]; decide) hstamp'
  rw [hempty, List.nil_append] at hrows₀
  have hlen₀ : c₀.shared.rows.length = 1 := by rw [hrows₀, List.length_singleton]
  obtain ⟨ls₁, c, more, hr₁, hq₁, hrows₁, hlen₁, hothers⟩ := append_many
    (n := (maxInt64 - 2).toNat) validChain_nil hr₀ hq₀ hstamp (by rw [hlen₀]; decide)
  have hlen : (c.shared.rows.length : ℤ) = maxInt64 - 1 := by
    rw [hrows₁, List.length_append, hlen₀, hlen₁]
    decide
  obtain ⟨ls₂, d, other, hr₂, hq₂, hrows₂, hlen₂, hother⟩ := append_many (n := 1)
    validChain_nil (hr₀.trans hr₁) hq₁ hstamp (by push_cast; rw [hlen]; decide)
  have hfull : (d.shared.rows.length : ℤ) = maxInt64 := by
    rw [hrows₂, List.length_append, hlen₂]
    push_cast
    omega
  obtain ⟨ls₃, e, hr₃, -, hrows₃⟩ := append_run validChain_nil ((hr₀.trans hr₁).trans hr₂) hq₂
    hfull.le hstamp'
  rw [hrows₀, List.singleton_append] at hrows₁
  refine ⟨_, c, _, more, _, e, other, nextRow d.shared.rows (sampleEntry (lit "a")),
    hr₀.trans hr₁, hlen, hrows₁, nextRow_agent _ _, (follows_nextRow _ _).seq_eq (by decide),
    hothers, hr₂.trans hr₃, ?_, hother, nextRow_agent _ _, (follows_nextRow _ _).seq_wraps hfull⟩
  rw [hrows₃]
  nth_rewrite 1 [hrows₂]
  rw [hrows₁]
  simp only [List.cons_append, List.append_assoc]

/-- The numbers are used up between two pages: the entry that got the smallest one is on the
second page, and the cursor that names it is refused. -/
lemma wrapped_number_listed : ∃ ls c bodies d,
    Run DB.machine.semantics AppendCall (Pool.initial (DB.ofRows [])) ls c ∧
      (c.shared.rows.length : ℤ) < maxInt64 ∧
      Walk byAgent (fun _ => 0) c bodies (some (lit "-9223372036854775808")) d ∧
      ∀ r, Asks byAgent (lit "-9223372036854775808") r →
        handleQuery (reads (fun _ => 0) d) r =
          .failed 400 (lit "\x7b\"error\": \"before must be a positive sequence number\"\x7d") := by
  obtain ⟨ls, c, first, more, ms, d, other, row, hr, hlen, hrows, hagent, hseq, hmore, hrun,
    hrows', hother, hagent', hseq'⟩ := exists_wrapping
  have hask₁ : Asks byAgent [] (pageRequest "limit=1&agent=a") :=
    ⟨rfl, by decide, by decide, by decide, by decide, by decide⟩
  have hask₂ : Asks byAgent (lit "1") (pageRequest "limit=1&agent=a&before=1") :=
    ⟨rfl, by decide, by decide, by decide, by decide, by decide⟩
  have hrows₁ : c.shared.rows.filter (ListLedgerPageParams.selects
      ⟨if (0 : ℤ) ≤ 0 then maxInt64 else 0, lit "a", [], [], 1⟩) = [first] := by
    rw [hrows, List.filter_cons, selects_agent _ hagent, hseq, filter_others _ hmore]
    rfl
  have hrows₂ : d.shared.rows.filter (ListLedgerPageParams.selects
      ⟨if (1 : ℤ) ≤ 0 then maxInt64 else 1, lit "a", [], [], 1⟩) = [row] := by
    rw [hrows', List.filter_cons, selects_agent _ hagent, hseq, List.filter_append,
      List.filter_append, filter_others _ hmore, filter_others _ hother, List.filter_cons,
      selects_agent _ hagent', hseq']
    rfl
  have hpage₁ := handleQuery_short c hask₁ rfl hrows₁ le_rfl
  have hpage₂ := handleQuery_short d hask₂ (by decide) hrows₂ le_rfl
  have hcursor₁ : nextBefore 1 ([first].map (returned fun _ => 0)) = some (lit "1") := by
    change some (decimal first.seqNum) = _
    rw [hseq]
    decide
  have hcursor₂ : nextBefore 1 ([row].map (returned fun _ => 0)) =
      some (lit "-9223372036854775808") := by
    change some (decimal row.seqNum) = _
    rw [hseq']
    decide
  rw [hcursor₁] at hpage₁
  rw [hcursor₂] at hpage₂
  exact ⟨ls, c, _, d, hr, by omega, .next (.first hask₁ hpage₁) hrun hask₂ hpage₂,
    fun r hask => handleQuery_refused hask (by decide)⟩

def lateEntry : Ledger := { sampleEntry [] with timestamp := ⟨253402300800000000000, 0⟩ }

/-- An entry whose timestamp JSON cannot carry: its page has no body, and the next one no
entries. -/
lemma late_year_unlisted : ∃ ls c,
    Run DB.machine.semantics AppendCall (Pool.initial (DB.ofRows [])) ls c ∧
      c.shared.rows.length = 1 ∧
      Walk oneByOne (fun _ => 0) c [[], lit "[]" ++ [10]] none c := by
  have hplay : (DB.machine.play (.start (append lateEntry) :: List.replicate 6 (.act 0 .ok))
      (Pool.initial (DB.ofRows []))).map (fun c => (c.shared.rows.length,
        ["limit=1", "limit=1&before=1"].map fun query =>
          handleQuery (reads (fun _ => 0) c) (pageRequest query))) =
      some (1, [.sent [] (some (lit "1")), .sent (lit "[]" ++ [10]) none]) := by decide +kernel
  obtain ⟨c, hc, hfacts⟩ := Option.map_eq_some_iff.mp hplay
  simp only [List.map_cons, List.map_nil, List.cons.injEq, Prod.mk.injEq, and_true] at hfacts
  obtain ⟨hlen, hfirst, hsecond⟩ := hfacts
  have hcalls : ∀ p ∈ [append lateEntry], AppendCall p :=
    List.forall_mem_cons.mpr ⟨⟨_, rfl⟩, List.forall_mem_nil _⟩
  obtain ⟨ls, hr⟩ := Machine.play_run hcalls hc
  refine ⟨ls, c, hr, hlen, .next (.first ⟨rfl, by decide, rfl, rfl, rfl, rfl⟩ hfirst) (.nil c) ?_
    hsecond⟩
  exact ⟨rfl, by decide, by decide, by decide, by decide, by decide⟩

/-- Three ledgers of which the pages are not the wanted entries: one that has used up the numbers
when the first page is read, one that uses them up between two pages, and one with an entry of the
year 10000. -/
theorem pages_incomplete :
    (∃ ls c e, Run DB.machine.semantics AppendCall (Pool.initial (DB.ofRows [])) ls c ∧
      e ∈ c.shared.rows ∧ byAgent.wants e = true ∧ e.seqNum = maxInt64 ∧
      Walk byAgent (fun _ => 0) c [lit "[]" ++ [10]] none c) ∧
    (∃ ls c bodies d, Run DB.machine.semantics AppendCall (Pool.initial (DB.ofRows [])) ls c ∧
      (c.shared.rows.length : ℤ) < maxInt64 ∧
      Walk byAgent (fun _ => 0) c bodies (some (lit "-9223372036854775808")) d ∧
      ∀ r, Asks byAgent (lit "-9223372036854775808") r →
        handleQuery (reads (fun _ => 0) d) r =
          .failed 400 (lit "\x7b\"error\": \"before must be a positive sequence number\"\x7d")) ∧
    ∃ ls c, Run DB.machine.semantics AppendCall (Pool.initial (DB.ofRows [])) ls c ∧
      c.shared.rows.length = 1 ∧ Walk oneByOne (fun _ => 0) c [[], lit "[]" ++ [10]] none c :=
  ⟨last_number_unlisted, wrapped_number_listed, late_year_unlisted⟩

end Incomplete

end Sample

end KiteRail.Ledger
