import TelegramServer.Api.Handlers
import TelegramServer.Store.History
import TelegramServer.Store.RandomIDs

/-!
# Chat pins

A chat's pin is a local id among the creator's rows. The store checks it among the rows of the
caller, and every member sees their own copy of that message; only the creator gets as far as the
store.
-/

namespace TelegramServer.Store

open Tx Tx.Table List

variable {d w : DB} {chat u v : Int} {q : Int × Option Int} {pinned : Option Int} {f : Chat → Chat}
  {a : Act} {m : Message} {c : Int}

def DB.chatPinnedMessage (d : DB) (chatID : Int) : Option (Option Int) :=
  (d.chatByID chatID).map (·.pinnedMessageID)

/-- `ChatPinnedMessageForOwner`: through the creator's row to the member's copy. -/
def DB.chatPinnedMessageForOwner (d : DB) (chatID ownerID : Int) : Option Int := do
  let c ← d.chatByID chatID
  let pinned ← c.pinnedMessageID
  let p ← d.participants.find? (Participant.isFor c.id ownerID)
  let creatorCopy ← d.messages.find? fun m => Message.isAt c.creatorID pinned m &&
    (m.peerType = .chat && m.peerID = c.id && m.fanoutID ≠ 0 && !m.deleted)
  let viewerCopy ← d.messages.find? fun m => m.ownerID = p.userID && m.fanoutID =
    creatorCopy.fanoutID && m.peerType = .chat && m.peerID = c.id && !m.deleted
  pure viewerCopy.localID

/-! ## What becomes of a pin -/

def DB.pinOf (d : DB) (chat : Int) : Option (Int × Option Int) :=
  (d.chatByID chat).map fun c => (c.creatorID, c.pinnedMessageID)

def PinKept (x y : Option (Int × Option Int)) : Prop :=
  y = x ∨ x = none ∧ ∃ u, y = some (u, none)

theorem PinKept.trans {x y z : Option (Int × Option Int)} (h : PinKept x y) (h' : PinKept y z) :
    PinKept x z := by
  rcases h with rfl | ⟨rfl, u, rfl⟩
  · exact h'
  · rcases h' with rfl | ⟨hno, -⟩
    · exact .inr ⟨rfl, u, rfl⟩
    · cases hno

theorem PinKept.eq {x y : Option (Int × Option Int)} (h : PinKept x y) (hx : x ≠ none) : y = x :=
  h.resolve_right fun h => hx h.1

def Act.keepsPins : Act → Prop
  | .side (.insertChat row _) => row.pinnedMessageID = none
  | .side (.setChatPinnedMessage _ _) => False
  | _ => True

theorem chatByID_updateWhere {chats : List Chat} (hf : ∀ x, (f x).id = x.id) :
    (updateWhere (·.id = c) f chats).find? (·.id = chat) =
      (chats.find? (·.id = chat)).map fun x => if x.id = c then f x else x := by
  rw [find?_updateWhere_of fun x _ => by rw [hf]]
  simp

theorem pinOf_updateWhere (hf : ∀ x, (f x).id = x.id)
    (hpin : ∀ x, (f x).creatorID = x.creatorID ∧ (f x).pinnedMessageID = x.pinnedMessageID) :
    ({ d with chats := updateWhere (·.id = c) f d.chats }).pinOf chat = d.pinOf chat := by
  unfold DB.pinOf DB.chatByID
  rw [chatByID_updateWhere hf, Option.map_map]
  congr 1
  funext x
  dsimp only [Function.comp_apply]
  split
  · rw [(hpin x).1, (hpin x).2]
  · rfl

theorem pinOf_set (c : Int) (pinned : Option Int) (d : DB) :
    ((Write.setChatPinnedMessage c pinned).apply d).pinOf chat =
      (d.pinOf chat).map fun q => (q.1, if chat = c then pinned else q.2) := by
  change ((updateWhere _ _ d.chats).find? _).map _ = ((d.chats.find? _).map _).map _
  rw [chatByID_updateWhere, Option.map_map, Option.map_map]
  · cases hfind : d.chats.find? (·.id = chat) with
    | none => rfl
    | some x =>
      have hid : x.id = chat := by simpa using find?_some hfind
      simp only [Option.map_some, Function.comp_apply, hid]
      split <;> rfl
  · exact fun _ => rfl

theorem pinKept_insertChat {row : Chat} {members : List Int} (hrow : row.pinnedMessageID = none) :
    PinKept (d.pinOf chat) (((Write.insertChat row members).apply d).pinOf chat) := by
  change PinKept _ (((insertAbsent _ row d.chats).find? _).map _)
  rw [find?_insertAbsent_key (fun _ => decide_eq_true_iff) (fun _ => decide_eq_true_iff) rfl]
  split
  · cases hfind : d.chats.find? (·.id = chat) with
    | none => exact .inr ⟨by rw [DB.pinOf, DB.chatByID, hfind]; rfl, row.creatorID, by simp [hrow]⟩
    | some x => exact .inl (by rw [DB.pinOf, DB.chatByID, hfind]; rfl)
  · exact .inl rfl

theorem Act.keepsPins.kept (h : a.keepsPins) (d : DB) :
    PinKept (d.pinOf chat) ((a.apply d).pinOf chat) := by
  cases a with
  | side o =>
    cases o with
    | insertChat row members => exact pinKept_insertChat h
    | setChatPinnedMessage => exact h.elim
    | bumpChatVersion | setChatTitle | setChatDefaultBannedRights =>
      exact .inl (pinOf_updateWhere (fun _ => rfl) fun _ => ⟨rfl, rfl⟩)
    | _ => exact .inl rfl
  | _ => exact .inl rfl

theorem Did.pinKept {as : List Act} (h : Did as d w) (has : ∀ a ∈ as, a.keepsPins) :
    PinKept (d.pinOf chat) (w.pinOf chat) := by
  rw [h.eq]
  exact runActs_invariant (P := fun v => PinKept (d.pinOf chat) (v.pinOf chat)) (.inl rfl)
    fun a ha v hv => hv.trans ((has a ha).kept v)

theorem Act.keepsPins_of_onChat (h : a.onChat d c) : a.keepsPins := by
  cases a with
  | side o =>
    cases o with
    | insertChat row members => exact h.2
    | setChatPinnedMessage => exact h.elim
    | _ => trivial
  | _ => trivial

theorem Act.keepsPins_of_offChat (h : a.offChat d) : a.keepsPins := by
  cases a with
  | side o => cases o <;> trivial
  | _ => trivial

/-- Only `SetChatPinnedMessage` changes a pin. -/
theorem Spec.pins {t : Call} {a : Reply} (h : Spec t d a w) :
    PinKept (d.pinOf chat) (w.pinOf chat) ∨
      ∃ u pinned, t = .setChatPin chat u pinned ∧ PinSpec chat u pinned d w := by
  obtain ⟨as, hdid, hdeed⟩ := h.deed
  cases hdeed with
  | pin c u pinned call spec =>
    by_cases hc : c = chat
    · exact .inr ⟨u, pinned, hc ▸ call, hc ▸ spec⟩
    · refine .inl (.inl ?_)
      rw [hdid.eq]
      refine (pinOf_set c pinned d).trans ?_
      simp [Ne.symm hc]
  | onChat c extra on => exact .inl (hdid.pinKept fun a ha => Act.keepsPins_of_onChat (on a ha).1)
  | offChat off => exact .inl (hdid.pinKept fun a ha => Act.keepsPins_of_offChat (off a ha))
  | delete _ all | read _ all =>
    refine .inl (hdid.pinKept fun a ha => ?_)
    have := all a ha
    cases a with
    | side o => cases o <;> trivial
    | _ => trivial
  | polls os _ all =>
    refine .inl (hdid.pinKept fun a ha => ?_)
    obtain ⟨o, ho, rfl⟩ := mem_map.mp ha
    have := all o ho
    cases o <;> trivial

def SetsPin (chat : Int) (x : StoreRecord) : Prop :=
  (∃ u pinned, x.call = .setChatPin chat u pinned) ∧ x.outcome.answer.isSome

variable {rs : List StoreRecord} {x : StoreRecord} {e : DB}

theorem record_pins (h : locking.RecordOk Inv Spec x) :
    PinKept (x.pre.pinOf chat) (x.post.pinOf chat) ∨
      SetsPin chat x ∧ ∃ u pinned, x.call = .setChatPin chat u pinned ∧
        PinSpec chat u pinned x.pre x.post := by
  cases ha : x.outcome.answer with
  | none => exact .inl (.inl (by rw [h.unchanged ha]))
  | some a =>
    refine (h.spec ha).pins.imp_right ?_
    rintro ⟨u, pinned, hcall, hspec⟩
    exact ⟨⟨⟨u, pinned, hcall⟩, by rw [ha]; rfl⟩, u, pinned, hcall, hspec⟩

theorem PinSpec.pinOf (h : PinSpec chat u pinned d w) :
    w.pinOf chat = (d.pinOf chat).map fun q => (q.1, pinned) := by
  rw [h.did.eq]
  refine (pinOf_set chat pinned d).trans ?_
  simp

theorem creator_leads (hleads : Locking.Leads rs d e) (hok : ∀ x ∈ rs, locking.RecordOk Inv Spec x)
    (h : (d.pinOf chat).map Prod.fst = some u) : (e.pinOf chat).map Prod.fst = some u := by
  refine hleads.invariant (P := fun d => (d.pinOf chat).map Prod.fst = some u)
    (fun x hx hpre => ?_) h
  rcases record_pins (hok x hx) with hkept | ⟨-, _, _, -, hspec⟩
  · rwa [hkept.eq fun hnone => by simp [hnone] at hpre]
  · rw [hspec.pinOf, Option.map_map]
    exact hpre

theorem pin_leads (hleads : Locking.Leads rs d e) (hok : ∀ x ∈ rs, locking.RecordOk Inv Spec x)
    (hno : ∀ x ∈ rs, ¬ SetsPin chat x) (h : d.pinOf chat = some q) :
    e.pinOf chat = some q := by
  refine hleads.invariant (P := fun d => d.pinOf chat = some q) (fun x hx hpre => ?_) h
  rcases record_pins (hok x hx) with hkept | ⟨hsets, -⟩
  · rwa [hkept.eq (by simp [hpre])]
  · exact absurd hsets (hno x hx)

/-! ## What members see -/

theorem find?_eq_some_of_unique {α : Type} {l : List α} {p : α → Bool} {a : α} (ha : a ∈ l)
    (hp : p a) (huniq : ∀ x ∈ l, p x → x = a) : l.find? p = some a := by
  obtain ⟨x, hx⟩ := Option.isSome_iff_exists.mp (find?_isSome.mpr ⟨a, ha, hp⟩)
  rw [hx, huniq x (mem_of_find?_eq_some hx) (find?_some hx)]

/-- On `d` the pin that was set to the caller's message, or cleared, on `w` is for the member `v`
their own live copy of it; it is nothing without that copy, or without the caller's. -/
def PinRight (w d : DB) (chat caller : Int) (pinned : Option Int) (v : Int) : Prop :=
  match pinned with
  | none => d.chatPinnedMessageForOwner chat v = none
  | some id => ∃ m ∈ w.messages, Message.isAt caller id m ∧ m.deleted = false ∧ m.peerType = .chat ∧
      m.peerID = chat ∧ m.fanoutID ≠ 0 ∧ ∀ l, d.chatPinnedMessageForOwner chat v = some l ↔
        d.isChatMember chat v ∧ (∃ s ∈ d.messages, Message.isAt caller id s ∧ s.deleted = false) ∧
          ∃ y ∈ d.messages, y.ownerID = v ∧ y.fanoutID = m.fanoutID ∧ y.deleted = false ∧
            y.localID = l

theorem chatByID_of_pinOf (h : d.pinOf chat = some q) :
    ∃ c, d.chatByID chat = some c ∧ c.id = chat ∧ c.creatorID = q.1 ∧ c.pinnedMessageID = q.2 := by
  obtain ⟨c, hc, rfl⟩ := Option.map_eq_some_iff.mp h
  exact ⟨c, hc, by simpa using find?_some hc, rfl, rfl⟩

theorem Inv.chatKind (h : Inv d) (hm : m ∈ d.messages) : m.peerType = .chat ↔ m.fanoutID ≠ 0 := by
  rcases (h.logs m.ownerID).kinds m (mem_filter.mpr ⟨hm, by simp⟩) with ⟨ht, h0, -⟩ | ⟨ht, hpos, -⟩
  · simp [ht, h0]
  · simp [ht, hpos.ne']

theorem Inv.fanout_unique (h : Inv d) {x y : Message} (hx : x ∈ d.messages) (hy : y ∈ d.messages)
    (hown : x.ownerID = y.ownerID) (h0 : y.fanoutID ≠ 0) (hf : x.fanoutID = y.fanoutID) : x = y :=
  h.copy_unique hy hx hy (.inr (.inl ⟨h0, hf⟩)) (.inl rfl) hown

theorem pinned_iff (hd : Inv d) {id l : Int} (hpin : d.pinOf chat = some (u, some id))
    (hm : m ∈ d.messages) (hat : Message.isAt u id m) (hchat : m.peerType = .chat)
    (hpeer : m.peerID = chat) :
    d.chatPinnedMessageForOwner chat v = some l ↔
      d.isChatMember chat v ∧ (∃ s ∈ d.messages, Message.isAt u id s ∧ s.deleted = false) ∧
        ∃ y ∈ d.messages, y.ownerID = v ∧ y.fanoutID = m.fanoutID ∧ y.deleted = false ∧
          y.localID = l := by
  obtain ⟨c, hc, rfl, rfl, hid⟩ := chatByID_of_pinOf hpin
  have h0 : m.fanoutID ≠ 0 := (hd.chatKind hm).mp hchat
  have hrow : ∀ s ∈ d.messages, Message.isAt c.creatorID id s → s = m := fun s hs hs' =>
    hd.row_of_key hs hm ((Message.key_eq_iff (k := (c.creatorID, id)).mpr hs').trans
      (Message.key_eq_iff (k := (c.creatorID, id)).mpr hat).symm)
  unfold DB.chatPinnedMessageForOwner
  simp only [hc, hid, Option.bind_eq_bind, Option.bind_some, Option.bind_eq_some_iff,
    Option.pure_def, Option.some.injEq]
  constructor
  · rintro ⟨p, hp, s, hs, y, hy, rfl⟩
    have hsat := find?_some hs
    have hyat := find?_some hy
    have hp' := find?_some hp
    simp only [Bool.and_eq_true, decide_eq_true_eq, Bool.not_eq_true', Participant.isFor]
      at hsat hyat hp'
    obtain rfl := hrow s (mem_of_find?_eq_some hs) hsat.1
    exact ⟨any_eq_true.mpr ⟨p, mem_of_find?_eq_some hp, find?_some hp⟩,
      ⟨s, hm, hat, hsat.2.2⟩, y, mem_of_find?_eq_some hy, hyat.1.1.1.1.trans hp'.2, hyat.1.1.1.2,
      hyat.2, rfl⟩
  · rintro ⟨hmember, ⟨s, hs, hsat, hlive⟩, y, hy, rfl, hf, hylive, rfl⟩
    obtain rfl := hrow s hs hsat
    obtain ⟨p, hp⟩ := Option.isSome_iff_exists.mp (find?_isSome.mpr (any_eq_true.mp hmember))
    have hp' := find?_some hp
    simp only [Participant.isFor, Bool.and_eq_true, decide_eq_true_eq, Bool.decide_and] at hp'
    have hys : y.fanoutID ≠ 0 := hf ▸ h0
    refine ⟨p, hp, s, ?_, y, ?_, rfl⟩
    · refine find?_eq_some_of_unique hm (by simp [hat, hchat, hpeer, h0, hlive]) fun x hx hxat => ?_
      exact hrow x hx (by simp only [Bool.and_eq_true] at hxat; exact hxat.1)
    · have hypeer : y.peerID = c.id := (hd.fanouts s hm y hy h0 hf).trans hpeer
      refine find?_eq_some_of_unique hy ?_ fun x hx hxat => ?_
      · simp [hp'.2, hf, (hd.chatKind hy).mpr hys, hypeer, hylive]
      · simp only [Bool.and_eq_true, decide_eq_true_eq] at hxat
        exact hd.fanout_unique hx hy (hxat.1.1.1.1.trans hp'.2) hys (hxat.1.1.1.2.trans hf.symm)

end TelegramServer.Store

namespace TelegramServer.Api

open Tx TelegramServer.Store List

variable {states : Owned} {files : List File} {c : StoreConfig}

structure PinRequest where
  id : Int
  unpin : Bool := false

/-- Both the flag and the id 0 clear the pin. -/
def PinRequest.pinnedID (req : PinRequest) : Option Int :=
  if req.unpin || req.id = 0 then none else some (int32 req.id)

def pinOutcome : Outcome Reply StoreErr → Handler Unit
  | .done _ => pure ()
  | .failed .notMember => .fail .peerIDInvalid
  | .failed .messageInvalid => .fail .messageIDInvalid
  | _ => .fail .internal

/-- Only the creator gets past the second read; a pin that is in place already is not set again. -/
def pinChatMessage (userID chatID : Int) (req : PinRequest) : Handler Unit := do
  requireMember chatID userID
  let ch ← .query (·.chatByID chatID)
  if ch.map (·.creatorID) ≠ some userID then .fail .chatAdminRequired
  else do
    let current ← .query (·.chatPinnedMessage chatID)
    let current ← .orFail .internal current
    if req.pinnedID = current then pure ()
    else do
      let r ← .exec (.setChatPin chatID userID req.pinnedID)
      pinOutcome r

variable {chat : Int} {req : PinRequest} {s : Handler Unit} {d : DB}
  {rs : List StoreRecord}

def Settled : Handler Unit → Prop
  | .call _ _ => True
  | .done _ => True
  | _ => False

theorem Settled.ne_read (h : Settled s) (k : DB → Handler Unit) : s ≠ .read k := by
  rintro rfl
  exact h

theorem pinChatMessage_eq : pinChatMessage u chat req = .read fun d₀ =>
    if d₀.isChatMember chat u then .read fun d₁ =>
      if (d₁.chatByID chat).map (·.creatorID) ≠ some u then .fail .chatAdminRequired
      else .read fun d₂ =>
        (Script.orFail .internal (d₂.chatPinnedMessage chat)).bind fun current =>
          if req.pinnedID = current then .done ()
          else .call (.setChatPin chat u req.pinnedID) pinOutcome
    else .fail .peerIDInvalid := by
  refine congrArg Script.read (funext fun d₀ => ?_)
  change Script.bind (if d₀.isChatMember chat u then pure () else .fail RpcErr.peerIDInvalid) _ = _
  split
  · rfl
  · rfl

/-- Where a request is that has come to its call or its end: the caller is the creator, and either
the pin was in place or the call is the one the request asks for. -/
theorem pinChatMessage_comes (hc : Reached states files c)
    (h : Script.Comes (pinChatMessage u chat req) (.initial states files) c.log s d rs)
    (hs : Settled s) :
    ∃ d₁ rs₁, (∀ x ∈ rs₁, locking.RecordOk Inv Spec x) ∧ Locking.Leads rs₁ d₁ c.db ∧
      (d₁.pinOf chat).map Prod.fst = some u ∧
      (d₁.chatPinnedMessage chat = some req.pinnedID ∧ s = .done () ∧ rs = rs₁ ∨
        Script.Comes (.call (.setChatPin chat u req.pinnedID) pinOutcome) d₁ rs₁ s d rs) := by
  have hok := hc.ok.records
  rw [pinChatMessage_eq] at h
  obtain ⟨ws₀, d₀, rs₀, hrs₀, -, hleads₀, h⟩ := h.of_read (hs.ne_read _) hc.ok.leads
  rw [← hrs₀, forall_mem_append] at hok
  split at h
  case isFalse => cases h; exact hs.elim
  obtain ⟨ws₁, d₁, rs₁, rfl, -, hleads₁, h⟩ := h.of_read (hs.ne_read _) hleads₀
  rw [forall_mem_append] at hok
  split at h
  case isTrue => cases h; exact hs.elim
  rename_i hcreator
  obtain ⟨ws₂, d₂, rs₂, rfl, hws₂, hleads₂, h⟩ := h.of_read (hs.ne_read _) hleads₁
  rw [forall_mem_append] at hok
  have hbetween : (d₂.pinOf chat).map Prod.fst = some u := by
    refine creator_leads hws₂ hok.2.2.1 ?_
    rw [DB.pinOf, Option.map_map]
    exact not_not.mp hcreator
  refine ⟨d₂, rs₂, hok.2.2.2, hleads₂, hbetween, ?_⟩
  cases hcurrent : d₂.chatPinnedMessage chat with
  | none =>
    rw [hcurrent] at h
    cases h
    exact hs.elim
  | some current =>
    rw [hcurrent] at h
    change Script.Comes (if req.pinnedID = current then _ else _) d₂ rs₂ s d rs at h
    split at h
    case isTrue heq =>
      cases h
      exact .inl ⟨by rw [heq], rfl, rfl⟩
    case isFalse => exact .inr h

theorem pinOf_post {x : StoreRecord} (hok : locking.RecordOk Inv Spec x)
    (hcall : x.call = .setChatPin chat u req.pinnedID) (hdone : x.outcome.answer.isSome)
    (hcreator : (x.pre.pinOf chat).map Prod.fst = some u) :
    PinSpec chat u req.pinnedID x.pre x.post ∧ x.post.pinOf chat = some (u, req.pinnedID) := by
  obtain ⟨a, ha⟩ := Option.isSome_iff_exists.mp hdone
  have hspec := hok.spec ha
  rw [hcall] at hspec
  cases a <;> first | exact hspec.elim | skip
  refine ⟨hspec, (PinSpec.pinOf hspec).trans ?_⟩
  obtain ⟨q, hq, rfl⟩ := Option.map_eq_some_iff.mp hcreator
  rw [hq]
  rfl

theorem pinOutcome_comes {o : Outcome Reply StoreErr} {d' : DB} {rs' : List StoreRecord}
    (h : Script.Comes (pinOutcome o) d rs s d' rs') (hs : Settled s) :
    s = .done () ∧ rs' = rs ∧ o.answer.isSome := by
  unfold pinOutcome at h
  split at h
  case h_1 => cases h; exact ⟨rfl, rfl, rfl⟩
  all_goals cases h; exact hs.elim

theorem pinRight_of_spec {w e : DB} (hw : Inv w) (he : Inv e) (hgrows : Grows w e)
    {pre : DB} (hspec : PinSpec chat u pinned pre w)
    (hpin : e.pinOf chat = some (u, pinned)) : PinRight w e chat u pinned v := by
  cases pinned with
  | none =>
    obtain ⟨row, hrow, -, -, hnone⟩ := chatByID_of_pinOf hpin
    simp only [PinRight, DB.chatPinnedMessageForOwner, hrow, hnone, Option.bind_eq_bind,
      Option.bind_some, Option.bind_none]
  | some id =>
    obtain ⟨m, hm, hat, hlive, hchat, hpeer⟩ := hspec.names id rfl
    have hmw : m ∈ w.messages := by
      rw [hspec.did.eq]
      exact hm
    obtain ⟨m', hm', hfrozen⟩ := mem_map.mp (hgrows.messages.subset (mem_map_of_mem hmw))
    have hkept := Message.kept hfrozen
    refine ⟨m, hmw, hat, hlive, hchat, hpeer, (hw.chatKind hmw).mp hchat, fun l => ?_⟩
    rw [← hkept.fanoutID]
    obtain ⟨rfl, rfl⟩ := Message.isAt_iff.mp hat
    exact pinned_iff he hpin hm' hkept.isAt (hkept.peerType.trans hchat) (hkept.peerID.trans hpeer)

/-- The pin a request asks for: none for an unpin or the id 0, else the message with its id. -/
def PinRequest.Asks (req : PinRequest) : Option Int → Prop
  | none => req.unpin ∨ req.id = 0
  | some id => req.unpin = false ∧ req.id ≠ 0 ∧ id = int32 req.id

theorem PinRequest.Asks.eq {p : Option Int} (h : req.Asks p) : p = req.pinnedID := by
  unfold pinnedID
  cases p with
  | none => rw [if_pos (by simpa [Asks] using h)]
  | some id => rw [if_neg (by simpa using ⟨h.1, h.2.1⟩), h.2.2]

/-- In every run: after a pin or unpin of a request has committed, and until the next one on the
chat, each member sees their own live copy of the message that the id names among the caller's
rows, or nothing; and a request that succeeded leaves the pin it asked for, if no other one
committed behind its last step. -/
theorem chatPin_one_message (hc : Reached states files c) (u chat : Int) (req : PinRequest)
    (p : Option Int) (hp : req.Asks p) :
    (∀ k d x after, Script.Comes (pinChatMessage u chat req) (.initial states files) c.log
        (.call x.call k) d (x :: after) → x.outcome.answer.isSome →
        (∀ y ∈ after, ¬ SetsPin chat y) →
      x.call = .setChatPin chat u p ∧ ∀ v, PinRight x.post c.db chat u p v) ∧
    ∀ d after, Script.Comes (pinChatMessage u chat req) (.initial states files) c.log (.done ()) d
      after → (∀ y ∈ after, ¬ SetsPin chat y) → c.db.chatPinnedMessage chat = some p := by
  cases hp.eq
  have hpinned : ∀ {p}, c.db.pinOf chat = some (u, p) → c.db.chatPinnedMessage chat = some p := by
    intro p hp
    obtain ⟨row, hrow, -, -, rfl⟩ := chatByID_of_pinOf hp
    rw [DB.chatPinnedMessage, hrow, Option.map_some]
  constructor
  · intro k d x after h hdone hno
    obtain ⟨d₁, rs₁, hok, hleads, hcreator, ⟨-, hs, -⟩ | h⟩ := pinChatMessage_comes hc h trivial
    · cases hs
    obtain ⟨ws, d₂, rs₂, rfl, hws, hleads, ⟨hs, rfl, rfl⟩ | ⟨y, ys, -, -, hend⟩⟩ := h.of_call hleads
    · obtain ⟨hcall, -⟩ := Script.call.inj hs
      rw [forall_mem_append, forall_mem_cons] at hok
      obtain ⟨rfl, hleads⟩ := hleads
      obtain ⟨hspec, hpost⟩ := pinOf_post hok.2.1 hcall hdone (creator_leads hws hok.1 hcreator)
      refine ⟨hcall, fun v => pinRight_of_spec hok.2.1.2.1 hc.ok.inv ?_ hspec ?_⟩
      · exact hleads.grows locking fun y hy => (hok.2.2 y hy).2.2.1
      · exact pin_leads hleads hok.2.2 hno hpost
    · cases (pinOutcome_comes hend trivial).1
  · intro d after h hno
    refine hpinned (p := req.pinnedID) ?_
    obtain ⟨d₁, rs₁, hok, hleads, hcreator, ⟨hcurrent, -, rfl⟩ | h⟩ :=
      pinChatMessage_comes hc h trivial
    · refine pin_leads hleads hok hno ?_
      obtain ⟨row, hrow, hpin⟩ := Option.map_eq_some_iff.mp hcurrent
      rw [DB.pinOf, hrow, Option.map_some, Option.map_some, Option.some.injEq] at hcreator
      rw [DB.pinOf, hrow, Option.map_some, hpin, ← hcreator]
    obtain ⟨ws, d₂, rs₂, rfl, hws, hleads, ⟨hs, -⟩ | ⟨x, xs, hcall, rfl, hend⟩⟩ := h.of_call hleads
    · cases hs
    · obtain ⟨-, rfl, hdone⟩ := pinOutcome_comes hend trivial
      rw [forall_mem_append, forall_mem_cons] at hok
      obtain ⟨rfl, hleads⟩ := hleads
      obtain ⟨-, hpost⟩ := pinOf_post hok.2.1 hcall hdone (creator_leads hws hok.1 hcreator)
      exact pin_leads hleads hok.2.2 hno hpost

/-- A chat of two with one message, and the pins set in it. -/
def pinning (pins : List (Option Int)) : StoreConfig :=
  inChat [2] (pins.map (.setChatPin 1 1))

/-- The creator pins the message, and unpins it. -/
theorem chatPin_one_message_two : (pinning [some 1]).db.chatPinnedMessage 1 = some (some 1) ∧
    (pinning [some 1]).db.chatPinnedMessageForOwner 1 2 = some 1 ∧
    (pinning [some 1, none]).db.chatPinnedMessage 1 = some none := by
  refine ⟨(chatPin_one_message reached_serialRun 1 1 ⟨1, false⟩ (some 1) ⟨rfl, by decide⟩).2
      (pinning [some 1]).db [] ?_ (by simp), by decide +kernel,
    (chatPin_one_message reached_serialRun 1 1 ⟨1, true⟩ none (.inl rfl)).2
      (pinning [some 1, none]).db [] ?_ (by simp)⟩
  · exact Script.comes_of_arrive [true, true, false, false, false, false] _ _ _ rfl
  · exact Script.comes_of_arrive [true, true, true, false, false, false, false] _ _ _ rfl

end TelegramServer.Api
