import TelegramServer.Blob.Queries
import TelegramServer.Blob.Scan

/-!
# Listings of an S3 bucket

A walk asks for one page after another, and calls back for every object while it still reads the
page. The endpoint may answer anything: the walks are over any list of answers.
-/

namespace TelegramServer.Blob

open List

structure S3ListObject where
  key : Bytes
  size : Int
  lastModified : Option Int  -- when it is a time
deriving DecidableEq

/-- What the decoder meets in a page. A page that is cut off ends in `malformed`, and so does one
with an element that cannot be decoded. -/
inductive PageToken where
  | listBucketResult
  | isTruncated (truncated : Bool)
  | nextContinuationToken (next : Bytes)
  | contents (object : S3ListObject)
  | other
  | malformed

/-- The answer to a list request: no answer or a status that is none of success, or a page and
whether its body could be closed. -/
inductive ListResponse where
  | failed
  | page (tokens : List PageToken) (closed : Bool)

inductive WalkErr (E : Type) where
  | invalidKey
  | operation
  | callback (e : E)
deriving DecidableEq

structure S3ListPage where
  truncated : Bool := false
  next : Bytes := []
  listingRoot : Bool := false
  count : Nat := 0
deriving DecidableEq

def s3ListPageSize : Nat := 1000

def S3ListPage.see (page : S3ListPage) : PageToken → S3ListPage
  | .listBucketResult => { page with listingRoot := true }
  | .isTruncated truncated => { page with truncated }
  | .nextContinuationToken next => { page with next }
  | .contents _ => { page with count := page.count + 1 }
  | .other => page
  | .malformed => page

def validateS3Prefix (pre : Bytes) : Bool :=
  if pre = [] then true
  else if pre.getLast? ≠ some slash then validateKey pre
  else pre.dropLast ≠ [] && validateKey pre.dropLast

structure S3 where
  keyPrefix : Bytes
  valid : validateS3Prefix keyPrefix = true
  closed : keyPrefix = [] ∨ keyPrefix.getLast? = some slash

namespace S3

variable {E : Type} (s : S3) (fn : List Entry → Entry → Option E) (remotePrefix localPrefix : Bytes)

def scopedKey (key : Bytes) : Option Bytes :=
  if !validateKey key then none
  else if validateKey (s.keyPrefix ++ key) then some (s.keyPrefix ++ key) else none

def scopedWalkPrefix (pre : Bytes) : Option Bytes :=
  if !validateS3Prefix pre then none
  else if (s.keyPrefix ++ pre).length > maxKeyBytes then none
  else if validateS3Prefix (s.keyPrefix ++ pre) then some (s.keyPrefix ++ pre) else none

def entry (remotePrefix localPrefix : Bytes) (object : S3ListObject) : Option Entry := do
  if object.size < 0 ∨ !remotePrefix.isPrefixOf object.key then none
  let localKey ← cutPrefix s.keyPrefix object.key
  if !localPrefix.isPrefixOf localKey then none
  let modTime ← object.lastModified
  some ⟨localKey, .regular object.size, modTime⟩

def readPage : List PageToken → S3ListPage → List Entry → List Entry × Except (WalkErr E) S3ListPage
  | [], page, calls => (calls, if page.listingRoot then .ok page else .error .operation)
  | .malformed :: _, _, calls => (calls, .error .operation)
  | .contents object :: tokens, page, calls =>
    if page.count + 1 > s3ListPageSize then (calls, .error .operation)
    else
      match s.entry remotePrefix localPrefix object with
      | none => (calls, .error .operation)
      | some e =>
        match fn calls e with
        | some err => (calls ++ [e], .error (.callback err))
        | none => readPage tokens (page.see (.contents object)) (calls ++ [e])
  | token :: tokens, page, calls => readPage tokens (page.see token) calls

def listPage (response : ListResponse) (calls : List Entry) :
    List Entry × Except (WalkErr E) S3ListPage :=
  match response with
  | .failed => (calls, .error .operation)
  | .page tokens closed =>
    let r := s.readPage fn remotePrefix localPrefix tokens {} calls
    (r.1, r.2.bind fun page => if closed then .ok page else .error .operation)

def listParams (listPrefix token : Bytes) : List S3Query :=
  [⟨ascii ['l', 'i', 's', 't', '-', 't', 'y', 'p', 'e'], ascii ['2']⟩,
   ⟨ascii ['p', 'r', 'e', 'f', 'i', 'x'], listPrefix⟩,
   ⟨ascii ['m', 'a', 'x', '-', 'k', 'e', 'y', 's'], decimal s3ListPageSize⟩,
   ⟨continuationToken, token⟩]

def listQuery (listPrefix token : Bytes) : Bytes := encodeS3Query (listParams listPrefix token)

/-- What a walk has done: its requests with their answers, its calls, and no result while it
waits. -/
structure Walked (E : Type) where
  log : List (Bytes × ListResponse) := []
  calls : List Entry
  result : Option (Except (WalkErr E) Unit)

/-- A walk that is given these answers, from the token it sends next. -/
def walkList (fn : List Entry → Entry → Option E) (listPrefix localPrefix : Bytes) :
    List ListResponse → Bytes → List Entry → Walked E
  | [], _, calls => ⟨[], calls, none⟩
  | response :: responses, token, calls =>
    let query := listQuery listPrefix token
    match s.listPage fn listPrefix localPrefix response calls with
    | (calls, .error e) => ⟨[(query, response)], calls, some (.error e)⟩
    | (calls, .ok page) =>
      if !page.truncated then ⟨[(query, response)], calls, some (.ok ())⟩
      else if page.next = [] then ⟨[(query, response)], calls, some (.error .operation)⟩
      else
        let w := walkList fn listPrefix localPrefix responses page.next calls
        { w with log := (query, response) :: w.log }

/-- The prefix that is listed: a name without a separator is listed as a directory, and must not be
that of an object. -/
def listScope (objectExists : Bytes → Option Bool) (pre : Bytes) : Except (WalkErr E) Bytes :=
  match s.scopedWalkPrefix pre with
  | none => .error .invalidKey
  | some remotePrefix =>
    if slash ∈ pre then .ok remotePrefix
    else
      match s.scopedKey pre with
      | none => .error .invalidKey
      | some exact =>
        if objectExists exact = some false then .ok (remotePrefix ++ [slash]) else .error .operation

def walkPrefix (objectExists : Bytes → Option Bool) (fn : List Entry → Entry → Option E)
    (responses : List ListResponse) (pre : Bytes) : Walked E :=
  if pre = [] then ⟨[], [], some (.ok ())⟩
  else
    match s.listScope objectExists pre with
    | .error e => ⟨[], [], some (.error e)⟩
    | .ok listPrefix => s.walkList fn listPrefix pre responses [] []

end S3

/-! ## Pages -/

def PageToken.object? : PageToken → Option S3ListObject
  | .contents object => some object
  | _ => none

def objects (tokens : List PageToken) : List S3ListObject := tokens.filterMap PageToken.object?

@[simp] theorem objects_nil : objects [] = [] := rfl

@[simp] theorem objects_cons (token : PageToken) (tokens : List PageToken) :
    objects (token :: tokens) = token.object?.toList ++ objects tokens := by
  cases token <;> rfl

def pageOf (tokens : List PageToken) : S3ListPage := tokens.foldl S3ListPage.see {}

structure SoundPage (s : S3) (remotePrefix localPrefix : Bytes) (tokens : List PageToken) :
    Prop where
  readable : .malformed ∉ tokens
  root : .listBucketResult ∈ tokens
  size : (objects tokens).length ≤ s3ListPageSize
  scope : ∀ object ∈ objects tokens, (s.entry remotePrefix localPrefix object).isSome

def Accepted {E : Type} (fn : List Entry → Entry → Option E) (calls : List Entry) : Prop :=
  ∀ cs e rest, calls = cs ++ e :: rest → fn cs e = none

def Stops {E : Type} (fn : List Entry → Entry → Option E) (calls : List Entry)
    (failed : E → Prop) : Prop :=
  Accepted fn calls ∨ ∃ cs e err, calls = cs ++ [e] ∧ Accepted fn cs ∧ fn cs e = some err ∧
    failed err

theorem Stops.imp {E : Type} {fn : List Entry → Entry → Option E} {failed failed' : E → Prop}
    (h : Stops fn calls failed) (himp : ∀ err, failed err → failed' err) :
    Stops fn calls failed' := by
  refine Or.imp_right ?_ h
  rintro ⟨cs, e, err, hcs, hacc, hfn, herr⟩
  exact ⟨cs, e, err, hcs, hacc, hfn, himp err herr⟩

theorem foldl_see (tokens : List PageToken) (page : S3ListPage) :
    ((tokens.foldl S3ListPage.see page).listingRoot = true ↔
      page.listingRoot = true ∨ .listBucketResult ∈ tokens) ∧
    (tokens.foldl S3ListPage.see page).count = page.count + (objects tokens).length := by
  induction tokens generalizing page with
  | nil => simp
  | cons token tokens ih =>
    obtain ⟨hroot, hcount⟩ := ih (page.see token)
    rw [foldl_cons, hroot, hcount]
    cases token <;> simp [PageToken.object?, S3ListPage.see]
    omega

variable {calls calls' : List Entry} {response : ListResponse} {page : S3ListPage}
  {tokens : List PageToken} {listPrefix pre : Bytes} {E : Type} {s : S3}
  {fn : List Entry → Entry → Option E} {remotePrefix localPrefix : Bytes}
  {responses : List ListResponse} {token : Bytes}

theorem accepted_append {e : Entry} (h : Accepted fn calls) (he : fn calls e = none) :
    Accepted fn (calls ++ [e]) := by
  intro cs x rest heq
  rcases eq_nil_or_concat rest with rfl | ⟨rest, y, rfl⟩
  · obtain ⟨rfl, hx⟩ := append_inj' heq rfl
    rwa [← List.cons.inj hx |>.1]
  · rw [concat_eq_append, ← cons_append, ← append_assoc] at heq
    exact h cs x rest (append_inj' heq rfl).1

theorem S3.readPage_ok {page' : S3ListPage}
    (h : s.readPage fn remotePrefix localPrefix tokens page calls = (calls', .ok page')) :
    page' = tokens.foldl S3ListPage.see page ∧ page'.listingRoot = true ∧ .malformed ∉ tokens ∧
      (page.count ≤ s3ListPageSize → page'.count ≤ s3ListPageSize) ∧
      ∃ es, calls' = calls ++ es ∧ (objects tokens).map (s.entry remotePrefix localPrefix) =
        es.map some := by
  fun_induction S3.readPage s fn remotePrefix localPrefix tokens page calls with
  | case1 page calls =>
    obtain ⟨rfl, hpage⟩ := Prod.mk.inj h
    by_cases hroot : page.listingRoot = true
    · rw [if_pos hroot] at hpage
      obtain rfl := Except.ok.inj hpage
      simp [hroot]
    · rw [if_neg hroot] at hpage
      cases hpage
  | case2 | case3 | case4 | case5 => cases h
  | case6 object tokens page calls hsize e he hfn ih =>
    obtain ⟨hpage, hroot, hread, hcount, es, hcalls, hes⟩ := ih h
    refine ⟨hpage,
      hroot, by simpa using hread, fun _ => hcount (by simpa [S3ListPage.see] using hsize),
      e :: es, by simp [hcalls], by simp [PageToken.object?, he, hes]⟩
  | case7 token tokens page calls hmal hcon ih =>
    obtain ⟨hpage, hroot, hread, hcount, hcalls⟩ := ih h
    have hobjects : objects (token :: tokens) = objects tokens := by
      cases token <;> simp [PageToken.object?] at hcon ⊢
    rw [hobjects]
    have hmal : PageToken.malformed ≠ token := fun h => hmal h.symm
    refine ⟨hpage, hroot, by simpa [hmal] using hread, fun hle => hcount ?_, hcalls⟩
    cases token <;> simp [S3ListPage.see] at hcon ⊢ <;> exact hle

theorem S3.readPage_calls
    (hcalls : Accepted fn calls) :
    Stops fn (s.readPage fn remotePrefix localPrefix tokens page calls).1
      fun err => (s.readPage fn remotePrefix localPrefix tokens page calls).2 =
        .error (.callback err) := by
  fun_induction S3.readPage s fn remotePrefix localPrefix tokens page calls with
  | case1 | case2 | case3 | case4 => exact .inl hcalls
  | case5 object tokens page calls hsize e he err hfn =>
    exact .inr ⟨calls, e, err, rfl, hcalls, hfn, rfl⟩
  | case6 object tokens page calls hsize e he hfn ih => exact ih (accepted_append hcalls hfn)
  | case7 token tokens page calls hmal hcon ih => exact ih hcalls

theorem S3.listPage_ok
    (h : s.listPage fn remotePrefix localPrefix response calls = (calls', .ok page)) :
    ∃ tokens, response = .page tokens true ∧ SoundPage s remotePrefix localPrefix tokens ∧
      page = pageOf tokens ∧ ∃ es, calls' = calls ++ es ∧
        (objects tokens).map (s.entry remotePrefix localPrefix) = es.map some := by
  cases response with
  | failed => cases h
  | page tokens closed =>
    obtain ⟨hfst, hsnd⟩ := Prod.mk.inj h
    cases hread : s.readPage fn remotePrefix localPrefix tokens {} calls with
    | mk calls₁ r =>
      rw [hread] at hfst hsnd
      obtain rfl : calls₁ = calls' := hfst
      cases r with
      | error e => cases hsnd
      | ok page' =>
        cases closed with
        | false => cases hsnd
        | true =>
          obtain rfl := Except.ok.inj hsnd
          obtain ⟨rfl, hroot, hmal, hcount, es, hcalls, hes⟩ := S3.readPage_ok hread
          obtain ⟨hsee, hlen⟩ := foldl_see tokens {}
          refine ⟨tokens, rfl, ⟨hmal, (hsee.mp hroot).resolve_left (by simp), ?_,
            fun object hobject => ?_⟩,
            rfl, es, hcalls, hes⟩
          · simpa [hlen] using hcount (by simp)
          · obtain ⟨e, -, he⟩ := mem_map.mp (hes ▸ mem_map_of_mem hobject)
            rw [← he]
            rfl

theorem S3.listPage_calls {r : Except (WalkErr E) S3ListPage} (hcalls : Accepted fn calls)
    (h : s.listPage fn remotePrefix localPrefix response calls = (calls', r)) :
    Stops fn calls' fun err => r = .error (.callback err) := by
  cases response with
  | failed => exact .inl ((Prod.mk.inj h).1 ▸ hcalls)
  | page tokens closed =>
    obtain ⟨rfl, rfl⟩ := Prod.mk.inj h
    exact (S3.readPage_calls hcalls).imp fun err herr => by rw [herr]; rfl

theorem S3.accepted_of_listPage_ok
    (hcalls : Accepted fn calls)
    (h : s.listPage fn remotePrefix localPrefix response calls = (calls', .ok page)) :
    Accepted fn calls' :=
  (S3.listPage_calls hcalls h).resolve_right fun ⟨_, _, _, _, _, _, herr⟩ => by cases herr

/-! ## Whole walks -/

def Asks (query listPrefix token : Bytes) : Prop :=
  ∃ pairs, parsePairs query = some pairs ∧ pairs.Perm (sent (S3.listParams listPrefix token))

def ListResponse.next : ListResponse → Bytes
  | .failed => []
  | .page tokens _ => (pageOf tokens).next

/-- The pages are listed, each one after the first for the token that came with the one before. A
request for another token may be answered by anything. -/
def Served (listPrefix : Bytes) :
    Bytes → List (List S3ListObject) → List (Bytes × ListResponse) → Prop
  | token, page :: pages, (query, .page tokens _) :: log => Asks query listPrefix token →
      objects tokens = page ∧ ((pageOf tokens).truncated = true ↔ pages ≠ []) ∧
        Served listPrefix (pageOf tokens).next pages log
  | _, _, _ => True

/-- A token comes back as it was exactly when none of its runes is longer than a byte. -/
theorem asks_iff (hpre : isASCII listPrefix) :
    Asks (S3.listQuery listPrefix token) listPrefix token ↔ runeStarts 0 token = token := by
  rw [Asks, S3.listQuery, decodes_iff]
  constructor
  · intro h
    cases token with
    | nil => rfl
    | cons b bs =>
      have hasked := h ⟨continuationToken, b :: bs⟩ (by simp [sent, S3.listParams])
      exact congrArg S3Query.value hasked
  · intro h p hp
    have hp := (mem_filter.mp hp).1
    simp only [S3.listParams, mem_cons, not_mem_nil, or_false] at hp
    rcases hp with rfl | rfl | rfl | rfl
    · rfl
    · simp only [visited, runeStarts_of_isASCII hpre]
      rfl
    · decide
    · simp only [visited, h]
      rfl

/-- The property of a walk over what is listed under a prefix: it is complete, sends every token
back, does not go on from a page that is not sound, and stops at the first error of its callback. -/
structure Listed (s : S3) (fn : List Entry → Entry → Option E) (listPrefix localPrefix : Bytes)
    (w : S3.Walked E) : Prop where
  complete : ∀ (bucket : List S3ListObject) (pages : List (List S3ListObject)), pages ≠ [] →
    pages.flatten = bucket.filter (listPrefix.isPrefixOf ·.key) → Served listPrefix [] pages w.log →
    w.result = some (.ok ()) →
    (bucket.filter (listPrefix.isPrefixOf ·.key)).map (s.entry listPrefix localPrefix) =
    w.calls.map some
  tokens : w.log.IsChain fun x y => Asks y.1 listPrefix x.2.next
  sound : (∃ e, w.result = some (.error e)) ∨ ∀ x ∈ w.log, ∃ tokens, x.2 = .page tokens true ∧
    SoundPage s listPrefix localPrefix tokens ∧
      ((pageOf tokens).truncated = true → (pageOf tokens).next ≠ [])
  stops : Stops fn w.calls fun err => w.result = some (.error (.callback err))

section Walks

variable {w : S3.Walked E}

theorem S3.walkList_sound (hw : s.walkList fn remotePrefix localPrefix responses token calls = w) :
    (∃ e, w.result = some (.error e)) ∨ ∀ x ∈ w.log, ∃ tokens, x.2 = .page tokens true ∧
      SoundPage s remotePrefix localPrefix tokens ∧
      ((pageOf tokens).truncated = true → (pageOf tokens).next ≠ []) := by
  subst hw
  fun_induction S3.walkList s fn remotePrefix localPrefix responses token calls with
  | case1 => exact .inr (by simp)
  | case2 | case4 => exact .inl ⟨_, rfl⟩
  | case3 response responses token calls query calls' page hpage hend =>
    obtain ⟨tokens, rfl, hsound, rfl, -⟩ := S3.listPage_ok hpage
    exact .inr (by simpa [hsound] using fun h => absurd h (by simpa using hend))
  | case5 response responses token calls query calls' page hpage hmore hnext w ih =>
    obtain ⟨tokens, rfl, hsound, rfl, -⟩ := S3.listPage_ok hpage
    exact ih.imp_right fun hrest =>
      forall_mem_cons.mpr ⟨⟨tokens, rfl, hsound, fun _ => hnext⟩, hrest⟩

theorem S3.walkList_stops (hcalls : Accepted fn calls)
    (hw : s.walkList fn remotePrefix localPrefix responses token calls = w) :
    Stops fn w.calls fun err => w.result = some (.error (.callback err)) := by
  subst hw
  fun_induction S3.walkList s fn remotePrefix localPrefix responses token calls with
  | case1 => exact .inl hcalls
  | case2 response responses token calls query calls' e hpage =>
    exact (S3.listPage_calls hcalls hpage).imp fun err herr => by rw [Except.error.inj herr]
  | case3 | case4 => exact .inl (S3.accepted_of_listPage_ok hcalls ‹_›)
  | case5 response responses token calls query calls' page hpage hmore hnext w ih =>
    exact ih (S3.accepted_of_listPage_ok hcalls hpage)

theorem S3.walkList_head (hw : s.walkList fn remotePrefix localPrefix responses token calls = w) :
    (w.log = [] ∧ w.result = none) ∨
    ∃ r log, w.log = (S3.listQuery remotePrefix token, r) :: log := by
  subst hw
  fun_cases S3.walkList s fn remotePrefix localPrefix responses token calls with
  | case1 => exact .inl ⟨rfl, rfl⟩
  | case2 | case3 | case4 | case5 => exact .inr ⟨_, _, rfl⟩

theorem S3.walkList_responses (hw : s.walkList fn remotePrefix localPrefix responses token
    calls = w) : w.log.map (·.2) <+: responses := by
  subst hw
  fun_induction S3.walkList s fn remotePrefix localPrefix responses token calls with
  | case1 => exact nil_prefix
  | case2 | case3 | case4 => exact cons_prefix_cons.mpr ⟨rfl, nil_prefix⟩
  | case5 response responses token calls query calls' page hpage hmore hnext w ih =>
    exact cons_prefix_cons.mpr ⟨rfl, ih⟩

/-- Requests after the first carry their tokens exactly if the tokens have no rune longer than a
byte. -/
theorem S3.walkList_tokens (hpre : isASCII remotePrefix)
    (hw : s.walkList fn remotePrefix localPrefix responses token calls = w) :
    (w.log.IsChain fun x y => Asks y.1 remotePrefix x.2.next) ↔
      w.log.IsChain fun x _ => runeStarts 0 x.2.next = x.2.next := by
  subst hw
  fun_induction S3.walkList s fn remotePrefix localPrefix responses token calls with
  | case1 | case2 | case3 | case4 => simp
  | case5 response responses token calls query calls' page hpage hmore hnext w ih =>
    obtain ⟨tokens, rfl, -, rfl, -⟩ := S3.listPage_ok hpage
    rw [isChain_cons, isChain_cons, ih]
    refine and_congr_left fun _ => ?_
    obtain ⟨hnil, -⟩ | ⟨r, log, hlog⟩ := S3.walkList_head (w := w) rfl
    · simp [hnil]
    · simpa [hlog, ListResponse.next] using asks_iff hpre

theorem S3.walkList_complete {pages : List (List S3ListObject)} (hpages : pages ≠ [])
    (hw : s.walkList fn remotePrefix localPrefix responses token calls = w)
    (hserved : Served remotePrefix token pages w.log)
    (hasks : Asks (S3.listQuery remotePrefix token) remotePrefix token)
    (htokens : w.log.IsChain fun x y => Asks y.1 remotePrefix x.2.next)
    (hok : w.result = some (.ok ())) :
    ∃ es, w.calls = calls ++ es ∧
      pages.flatten.map (s.entry remotePrefix localPrefix) = es.map some := by
  subst hw
  fun_induction S3.walkList s fn remotePrefix localPrefix responses token calls
    generalizing pages with
  | case1 | case2 | case4 => cases hok
  | case3 =>
    rename_i query calls' page hpage hend
    obtain ⟨tokens, rfl, -, rfl, es, hcalls, hes⟩ := S3.listPage_ok hpage
    obtain ⟨page, pages, rfl⟩ := exists_cons_of_ne_nil hpages
    obtain ⟨hobjects, htrunc, -⟩ := hserved hasks
    obtain rfl : pages = [] := not_not.mp fun hne => absurd (htrunc.mpr hne) (by simpa using hend)
    exact ⟨es, hcalls, by simp [← hes, hobjects]⟩
  | case5 =>
    rename_i query calls' page hpage hmore hnext w ih
    obtain ⟨tokens, rfl, -, rfl, es, hcalls, hes⟩ := S3.listPage_ok hpage
    obtain ⟨page, pages, rfl⟩ := exists_cons_of_ne_nil hpages
    obtain ⟨hobjects, htrunc, hrest⟩ := hserved hasks
    obtain ⟨hhead, htokens⟩ := isChain_cons.mp htokens
    have hasks : Asks (S3.listQuery remotePrefix (pageOf tokens).next) remotePrefix
        (pageOf tokens).next := by
      obtain ⟨-, hnone⟩ | ⟨r, log, hlog⟩ := S3.walkList_head (w := w) rfl
      · cases hnone.symm.trans hok
      · exact hhead (_, r) (congrArg List.head? hlog)
    obtain ⟨es', hcalls', hes'⟩ := ih (htrunc.mp (by simpa using hmore)) hasks hrest htokens hok
    exact ⟨es ++ es', hcalls'.trans
      (by rw [hcalls, append_assoc]), by simp [← hes, ← hes', hobjects]⟩

end Walks

/-! ## Prefixes -/

theorem segments_ne_nil (s : Bytes) : segments s ≠ [] := by
  induction s with
  | nil => simp [segments]
  | cons c cs ih =>
    rw [segments]
    split
    · simp
    · simpa using ih

theorem of_all_segments {p : UInt8 → Bool} {s : Bytes} (h : (segments s).all (·.all p) = true) :
    ∀ b ∈ s, b = slash ∨ p b = true := by
  induction s with
  | nil => simp
  | cons c cs ih =>
    rw [segments] at h
    obtain ⟨t, ts, hs⟩ := exists_cons_of_ne_nil (segments_ne_nil cs)
    rw [hs] at h ih
    split at h
    · rename_i hc
      exact forall_mem_cons.mpr ⟨.inl hc, ih (by simpa using h)⟩
    · simp only [modifyHead_cons, all_cons, Bool.and_eq_true] at h
      exact forall_mem_cons.mpr ⟨.inr h.1.1, ih (by simp [h.1.2, h.2])⟩

theorem isASCII_of_validateKey {key : Bytes} (h : validateKey key = true) : isASCII key := by
  simp only [validateKey, Bool.and_eq_true, all_eq_true, validSegment] at h
  have hall : (segments key).all (·.all allowed) = true :=
    all_eq_true.mpr fun t ht => all_eq_true.mpr (h.2 t ht).2
  intro b hb
  rcases of_all_segments hall b hb with rfl | hb
  · decide
  · grind [allowed, isDigit]

theorem isASCII_of_validateS3Prefix (h : validateS3Prefix pre = true) : isASCII pre := by
  rcases eq_nil_or_concat pre with rfl | ⟨dir, c, rfl⟩
  · simp [isASCII]
  · rw [concat_eq_append] at h ⊢
    by_cases hc : c = slash
    · have hdir : validateKey dir = true := by simp_all [validateS3Prefix]
      exact forall_mem_append.mpr ⟨isASCII_of_validateKey hdir, by simp [hc, slash]⟩
    · exact isASCII_of_validateKey (by simpa [validateS3Prefix, hc] using h)

theorem S3.isASCII_listScope {objectExists : Bytes → Option Bool}
    (h : (s.listScope objectExists pre : Except (WalkErr E) Bytes) = .ok listPrefix) :
    isASCII listPrefix := by
  have hremote : ∀ remote, s.scopedWalkPrefix pre = some remote → isASCII remote := by
    intro remote hremote
    simp only [S3.scopedWalkPrefix, Option.ite_none_left_eq_some, Option.ite_none_right_eq_some]
      at hremote
    obtain ⟨-, -, hvalid, heq⟩ := hremote
    exact Option.some.inj heq ▸ isASCII_of_validateS3Prefix hvalid
  unfold S3.listScope at h
  split at h
  · cases h
  · rename_i remote heq
    split at h
    · exact Except.ok.inj h ▸ hremote remote heq
    split at h
    · cases h
    split at h
    · obtain rfl := Except.ok.inj h
      exact forall_mem_append.mpr ⟨hremote remote heq, by simp [slash]⟩
    · cases h

/-- A walk has the property when no token it is told to go on with has a rune longer than a byte,
and exactly when none it does go on with has one. -/
theorem walkPrefix_listed_iff (s : S3) (objectExists : Bytes → Option Bool)
    (fn : List Entry → Entry → Option E) (responses : List ListResponse) (pre : Bytes)
    (hpre : pre ≠ []) :
    (∀ e, s.listScope objectExists pre = .error e →
      s.walkPrefix objectExists fn responses pre = ⟨[], [], some (.error e)⟩) ∧
    ∀ listPrefix, (s.listScope objectExists pre : Except (WalkErr E) Bytes) = .ok listPrefix →
      ((∀ r ∈ responses, runeStarts 0 r.next = r.next) →
        Listed s fn listPrefix pre (s.walkPrefix objectExists fn responses pre)) ∧
      (Listed s fn listPrefix pre (s.walkPrefix objectExists fn responses pre) ↔
        (s.walkPrefix objectExists fn responses pre).log.IsChain
          fun x _ => runeStarts 0 x.2.next = x.2.next) := by
  refine ⟨fun e he => by simp [S3.walkPrefix, hpre, he], fun listPrefix hscope => ?_⟩
  have hascii := S3.isASCII_listScope hscope
  simp only [S3.walkPrefix, hpre, if_false, hscope]
  have hmp : ∀ {w}, s.walkList fn listPrefix pre responses [] [] = w →
      (w.log.IsChain fun x _ => runeStarts 0 x.2.next = x.2.next) →
      Listed s fn listPrefix pre w := by
    intro w hw htokens
    have htokens := (S3.walkList_tokens hascii hw).mpr htokens
    refine ⟨fun bucket pages hpages hlisted hserved hok => ?_, htokens, S3.walkList_sound hw,
      S3.walkList_stops (fun cs e rest h => by simp at h) hw⟩
    obtain ⟨es, hcalls, hes⟩ :=
      S3.walkList_complete hpages hw hserved ((asks_iff hascii).mpr rfl) htokens hok
    rw [← hlisted, hes, hcalls]
    rfl
  refine ⟨fun hall => hmp rfl ?_, fun h => (S3.walkList_tokens hascii rfl).mp h.tokens, hmp rfl⟩
  exact (pairwise_of_forall_mem_list fun x hx _ _ =>
    hall _ ((S3.walkList_responses rfl).subset (mem_map_of_mem hx))).isChain

def rootStore : S3 := ⟨[], rfl, .inl rfl⟩

def objectAt (name : Char) : S3ListObject := ⟨ascii ['d', '/', name], 1, some 0⟩

def twoPages (token : Bytes) (rest : List PageToken) : List ListResponse :=
  [.page [.listBucketResult, .contents (objectAt 'a'), .isTruncated true,
    .nextContinuationToken token] true, .page (.listBucketResult :: rest) true]

def twoPagesWalk (token : Bytes) (rest : List PageToken) : S3.Walked Unit :=
  rootStore.walkPrefix (fun _ => some false) (fun _ _ => none) (twoPages token rest)
    (ascii ['d', '/'])

theorem walkPrefix_listed_iff_two :
    Listed rootStore (fun _ _ => none) (ascii ['d', '/']) (ascii ['d', '/'])
        (twoPagesWalk [116] [.contents (objectAt 'b')]) ∧
      (twoPagesWalk [116] [.contents (objectAt 'b')]).calls.map (·.key) =
        [ascii ['d', '/', 'a'], ascii ['d', '/', 'b']] ∧
      (twoPagesWalk [116] [.contents (objectAt 'b')]).result = some (.ok ()) := by
  refine ⟨((walkPrefix_listed_iff rootStore _ _ _ _ (by decide)).2 _ rfl).1
    ?_, by decide, by decide⟩
  decide

/-- The token is a letter with an accent. It is not what the second request asks for, so nothing is
listed for it, and the walk ends without an error before the second page. -/
theorem accent_token_ends_walk :
    Served (ascii ['d', '/']) [] [[objectAt 'a'], [objectAt 'b']]
      (twoPagesWalk [0xC3, 0xA9] []).log ∧ (twoPagesWalk [0xC3, 0xA9] []).result = some (.ok ()) ∧
      (twoPagesWalk [0xC3, 0xA9] []).calls.map (·.key) = [ascii ['d', '/', 'a']] := by
  refine ⟨fun _ => ⟨rfl, by decide, fun hasks => ?_⟩, by decide, by decide⟩
  have hascii : isASCII (ascii ['d', '/']) := by decide
  exact absurd ((asks_iff hascii).mp hasks) (by decide)

end TelegramServer.Blob
