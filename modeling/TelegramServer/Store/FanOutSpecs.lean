import TelegramServer.Store.MessageSpecs

/-!
# Fan-out and forwards meet their specifications

A chat message is delivered in one loop over the members, each of whom gets a
row, an event and a dialog; a forward repeats that, or a 1:1 pair, for every
source.
-/

namespace TelegramServer.Store

open Tx Tx.Table Tx.Locking List
open Lock (owner tier)
open ForwardSource (outRow inRow)

variable {G : Ctx DB Lock} {w : DB} {rights : List String} {extra : List Int} {unread : Int}
  {Q : Post (Owned × List ForwardedMessage)} {as bs : List Act} {c : Copy} {chat : Chat}
  {d v w' : DB} {delivered : List (Int × Int × Int)} {dest : ForwardDest} {f : FanOut}
  {fromID now r sender u : Int} {m : Message} {members owners us : List Int} {src : ForwardSource}

theorem messages_of_adds (h : ∀ a ∈ as, a.adds) (d : DB) :
    (runActs as d).messages = d.messages ++ newRows as := by
  induction as generalizing d with
  | nil => simp [newRows]
  | cons a as ih =>
    rw [runActs_cons, ih fun a' ha' => h a' (by simp [ha'])]
    have ha := h a (by simp)
    cases a with
    | ensure user now => rfl
    | post m unread now =>
      change d.messages ++ [m] ++ newRows as = d.messages ++ newRows (_ :: as)
      simp [newRows, Act.newMessages]
    | _ => exact absurd ha Bool.false_ne_true

theorem participants_of_adds (h : ∀ a ∈ as, a.adds) (d : DB) :
    (runActs as d).participants = d.participants := by
  refine participants_runActs_eq (fun a ha o ho => ?_) d
  subst ho
  exact absurd (h _ ha) Bool.false_ne_true

theorem isChatMember_of_adds (h : ∀ a ∈ as, a.adds) (d : DB) (c u : Int) :
    (runActs as d).isChatMember c u = d.isChatMember c u := by
  rw [DB.isChatMember, participants_of_adds h, DB.isChatMember]

theorem blocks_of_adds (h : ∀ a ∈ as, a.adds) (d : DB) : (runActs as d).blocks = d.blocks := by
  refine runActs_frame (fun a ha d => ?_) d
  have ha := h a ha
  cases a with
  | ensure | post => rfl
  | _ => exact absurd ha Bool.false_ne_true

theorem Answers.adds {pts : Int} (h : Answers w sender r m pts) (hadds : ∀ a ∈ as, a.adds) :
    Answers (runActs as w) sender r m pts where
  mem := by
    rw [messages_of_adds hadds]
    exact mem_append_left _ h.mem
  owner := h.owner
  randomID := h.randomID
  event := (grows_runActs _ _).events.subset h.event

theorem Unsent.of_adds (h : Unsent (runActs as w) sender r) (hadds : ∀ a ∈ as, a.adds) :
    Unsent w sender r := by
  intro h0 m hm
  refine h h0 m ?_
  rw [messages_of_adds hadds]
  exact mem_append_left _ hm

/-! ## Delivery -/

structure Delivered (now : Int) (c : Copy) (owners : List Int) (delivered : List (Int × Int × Int))
    (as : List Act) (w w' : DB) : Prop where
  did : Did as w w'
  adds : ∀ a ∈ as, a.adds
  rows : newRows as = delivered.map fun x => c.row now x.1 x.2.2
  keys : delivered.map (·.1) = owners
  grown : announced as = owners
  chat : ∀ a ∈ as, (∀ d, a.onChat d c.chatID) ∧ ∃ u ∈ owners, a.owner = some u
  events : ∀ x ∈ delivered, ⟨x.1, x.2.1, .newMessage, x.2.2⟩ ∈ w'.events

theorem Delivered.nil (now : Int) (c : Copy) (w : DB) : Delivered now c [] [] [] w w where
  did := Did.nil w
  adds := by simp
  rows := rfl
  keys := rfl
  grown := rfl
  chat := by simp
  events := by simp

theorem Delivered.cons (hbs : Did bs w v) (hens : ∀ a ∈ bs, a = .ensure u now)
    (hpost : PostOk v (c.row now u (v.nextOf u)))
    (hunread : unread = (c.row now u (v.nextOf u)).unread)
    (h : Delivered now c owners delivered as
      ((Act.post (c.row now u (v.nextOf u)) unread now).apply v) w') :
    Delivered now c (u :: owners) ((u, v.ptsOf u + 1, v.nextOf u) :: delivered)
      (bs ++ .post (c.row now u (v.nextOf u)) unread now :: as) w w' where
  did := by
    have hone : Did [.post (c.row now u (v.nextOf u)) unread now] v _ :=
      ⟨⟨⟨hpost, hunread⟩, trivial⟩, fun x hx ht => by
        obtain rfl : x = c.row now u (v.nextOf u) := by simpa [newRows, Act.newMessages] using hx
        exact absurd ht (by simp [Copy.row]), rfl⟩
    exact hbs.append (hone.append h.did)
  adds := by
    intro a ha
    rcases mem_append.mp ha with ha | ha
    · rw [hens a ha]
      rfl
    · rcases mem_cons.mp ha with rfl | ha
      · rfl
      · exact h.adds a ha
  rows := by
    have hnil : newRows bs = [] := newRows_eq_nil fun a ha => by rw [hens a ha]; rfl
    rw [newRows_append, hnil, map_cons, ← h.rows]
    rfl
  keys := by rw [map_cons, h.keys]
  grown := by
    have hnil : announced bs = [] := filterMap_eq_nil_iff.mpr fun a ha => by
      rw [hens a ha]
      rfl
    rw [announced_append, hnil, ← h.grown]
    rfl
  chat := by
    intro a ha
    rcases mem_append.mp ha with ha | ha
    · rw [hens a ha]
      exact ⟨fun _ => trivial, u, by simp, rfl⟩
    · rcases mem_cons.mp ha with rfl | ha
      · exact ⟨fun _ => ⟨rfl, rfl⟩, u, by simp, rfl⟩
      · obtain ⟨hchat, x, hx, hu⟩ := h.chat a ha
        exact ⟨hchat, x, by simp [hx], hu⟩
  events := by
    intro x hx
    rcases mem_cons.mp hx with rfl | hx
    · rw [h.did.eq]
      exact (grows_runActs _ _).events.subset (mem_append_right _ (by simp [Copy.row]))
    · exact h.events x hx

structure DeliverOk (c : Copy) (owners : List Int) (w : DB) : Prop where
  pos : 0 < c.fanoutID
  chat : w.hasChat c.chatID
  nodup : owners.Nodup
  unsent : c.fromID ∈ owners → Unsent w c.fromID c.randomID
  fresh : ∀ m ∈ w.messages, m.fanoutID = c.fanoutID → m.ownerID ∉ owners ∧ m.peerID = c.chatID

theorem DeliverOk.post (h : DeliverOk c (u :: us) w) (hmsgs : v.messages = w.messages)
    (hchat : v.hasChat c.chatID) (hs : (v.getState u).isSome) :
    PostOk v (c.row now u (v.nextOf u)) where
  state := hs
  next := rfl
  live := rfl
  kind := .inr ⟨rfl, h.pos, rfl⟩
  chat _ := hchat
  randomID h0 m hm hu := by
    simp only [Copy.row] at h0 hu ⊢
    split at h0
    · rename_i hfrom
      rw [if_pos hfrom]
      rw [hfrom] at hu
      exact h.unsent (by simp [hfrom]) h0 m (hmsgs ▸ hm) hu
    · exact absurd rfl h0
  fanoutID _ m hm heq := by
    obtain ⟨hown, hpeer⟩ := h.fresh m (hmsgs ▸ hm) heq
    exact ⟨fun hu => hown (by simp [show m.ownerID = u from hu]), hpeer⟩

theorem DeliverOk.next {l : Int} (h : DeliverOk c (u :: us) w) (hmsgs : v.messages = w.messages)
    (hchat : v.hasChat c.chatID) :
    DeliverOk c us ((Act.post (c.row now u l) unread now).apply v) where
  pos := h.pos
  chat := hchat
  nodup := (nodup_cons.mp h.nodup).2
  unsent hfrom h0 m hm hu := by
    have hm : m ∈ v.messages ++ [c.row now u l] := hm
    rcases mem_append.mp hm with hm | hm
    · exact h.unsent (by simp [hfrom]) h0 m (hmsgs ▸ hm) hu
    · obtain rfl := mem_singleton.mp hm
      have hu : u = c.fromID := hu
      exact absurd (hu ▸ hfrom) (nodup_cons.mp h.nodup).1
  fresh m hm heq := by
    have hm : m ∈ v.messages ++ [c.row now u l] := hm
    rcases mem_append.mp hm with hm | hm
    · obtain ⟨hown, hpeer⟩ := h.fresh m (hmsgs ▸ hm) heq
      exact ⟨fun hin => hown (by simp [hin]), hpeer⟩
    · obtain rfl := mem_singleton.mp hm
      exact ⟨(nodup_cons.mp h.nodup).1, rfl⟩

theorem wp_deliverCopies {ensure : Bool} {Q : Post (List (Int × Int × Int))}
    (hlock : ∀ u ∈ owners, owner u ∈ G.held) (hfan : Lock.fanout c.fanoutID ∈ G.held)
    (hok : DeliverOk c owners w)
    (h : ∀ G' delivered as w', G.held ⊆ G'.held → Delivered now c owners delivered as w w' →
      Q delivered G' w') : locking.wp (deliverCopies now c ensure owners) G w Q := by
  induction owners generalizing G w Q with
  | nil => exact h G [] [] w (le_refl _) (.nil now c w)
  | cons u us ih =>
    have hu := hlock u (by simp)
    -- The state row first, when it is asked for.
    have hensure : locking.wp (ensureIf ensure now u) G w fun _ G' v => G.held ⊆ G'.held ∧
        ∃ bs, Did bs w v ∧ (∀ a ∈ bs, a = .ensure u now) ∧ v.messages = w.messages ∧
          v.hasChat c.chatID := by
      unfold ensureIf
      split
      · refine wp_ensureUpdateState hu ⟨le_refl _, [.ensure u now], ?_, by simp, rfl, hok.chat⟩
        exact ⟨⟨trivial, trivial⟩, fun x hx => by simp [newRows, Act.newMessages] at hx, rfl⟩
      · exact ⟨le_refl _, [], Did.nil w, by simp, rfl, hok.chat⟩
    refine wp_bind (wp_mono hensure ?_)
    rintro ⟨⟩ G₁ v hG ⟨-, bs, hbs, hens, hmsgs, hchat⟩
    refine wp_bind (wp_post (r := c.row now u) (fun l => ⟨rfl, rfl, rfl, rfl⟩) (hG hu)
      (fun l _ => hG hfan) fun hs => ?_)
    refine wp_bind (ih (fun x hx => hG (hlock x (by simp [hx]))) (hG hfan)
      (hok.next hmsgs hchat) fun G₂ delivered as w' hG₂ hdel => ?_)
    exact h G₂ _ _ w' (hG.trans hG₂) (Delivered.cons hbs hens (hok.post hmsgs hchat hs)
      (by simp [Message.unread, Copy.row]) hdel)

theorem wp_reloadSender {Q : Post (Option Message)} (hv : Inv v)
    (hdel : Delivered now c owners delivered as v w) (hlock : ∀ u ∈ owners, owner u ∈ G.held)
    (hnone : sender ∉ owners → Q none G w)
    (hsome : ∀ b ∈ delivered, b.1 = sender → ptsOf (perOwnerPts delivered) sender = some b.2.1 →
      Q (some (c.row now sender b.2.2)) G w) :
    locking.wp (reloadSender sender delivered) G w Q := by
  unfold reloadSender
  split
  · rename_i hfind
    refine hnone fun hmem => ?_
    rw [← hdel.keys] at hmem
    obtain ⟨b, hb, heq⟩ := mem_map.mp hmem
    simpa [heq] using find?_eq_none.mp hfind b hb
  · rename_i b hfind
    have hb := mem_of_find?_eq_some hfind
    have hbs : b.1 = sender := by simpa using find?_some hfind
    have hown : sender ∈ owners := by
      rw [← hdel.keys]
      exact mem_map.mpr ⟨b, hb, hbs⟩
    refine wp_bind (wp_messageOrFail (hlock sender hown) fun m hm => ?_)
    obtain ⟨hmem, hmu, hml⟩ := DB.messageByOwnerLocal_some hm
    have hrow : c.row now sender b.2.2 ∈ w.messages := by
      rw [hdel.did.eq, messages_of_adds hdel.adds, hdel.rows]
      exact mem_append_right _ (mem_map.mpr ⟨b, hb, by rw [hbs]⟩)
    obtain rfl := row_unique (hdel.did.inv hv).logs hmem hrow hmu hml
    refine hsome b hb hbs ?_
    have hkey : (perOwnerPts delivered).find? (·.1 = sender) = some (b.1, b.2.1) := by
      rw [perOwnerPts, find?_map]
      exact congrArg _ hfind
    rw [ptsOf, hkey]
    rfl

theorem DB.chatByID_ofChat (d : DB) (c : Int) : (d.ofChat c).chatByID c = d.chatByID c := by
  simp only [DB.chatByID, DB.ofChat, find?_filter]
  congr 1
  funext x
  by_cases h : x.id = c <;> simp [h]

theorem DB.chatParticipants_ofChat (d : DB) (c : Int) :
    (d.ofChat c).chatParticipants c = d.chatParticipants c := by
  simp [DB.chatParticipants, DB.ofChat, filter_filter]

theorem DB.hasChat_of_chatByID {c : Int} (h : d.chatByID c = some chat) : d.hasChat c := by
  have hid := find?_some h
  exact any_eq_true.mpr ⟨chat, mem_of_find?_eq_some h, hid⟩

theorem reads_ofChat {A : Type} {q : DB → A} {c : Int} (hq : ∀ d : DB, q (d.ofChat c) = q d) :
    locking.Reads q {Lock.chat c} := by
  intro v w _ h
  rw [← hq v, ← hq w, show v.ofChat c = w.ofChat c from h _ rfl]

theorem wp_query_chat {A : Type} {q : DB → A} {c : Int}
    {Q : Post A} (hq : ∀ d : DB, q (d.ofChat c) = q d)
    (hc : Lock.chat c ∈ G.held) (h : Q (q w) G w) : locking.wp (.query q : Body A) G w Q :=
  wp_query_of_reads (reads_ofChat hq) (by simpa using hc) h

theorem wp_lockChat {B : Type} {c : Int} {e : StoreErr} {k : Chat → Body B} {Q : Post B}
    (ha : Lock.chat c ∈ G.held ∨ ∀ l ∈ G.held, l.tier < 1)
    (h : ∀ chat, w.chatByID c = some chat → locking.wp (k chat) (G.lock {Lock.chat c}) w Q) :
    locking.wp (do
      let chat ← chatByIDForUpdate c
      let chat ← .orFail e chat
      k chat) G w Q := by
  refine wp_bind (wp_queryForUpdate (fun v => ?_) fun v hv => ?_)
  · exact ascends_row not_false (ha.imp_right fun h l hl => .inl (h l hl))
  refine wp_bind (wp_orFail fun chat hchat => ?_)
  rw [DB.hasChat_of_chatByID hchat, if_pos rfl] at hv ⊢
  have hset : {l | l ∈ [Lock.chat c]} = {Lock.chat c} := by
    ext
    simp
  rw [hset] at hv ⊢
  refine h chat (hchat ▸ (reads_ofChat (q := (·.chatByID c)) (·.chatByID_ofChat c) v w hv.grows
    ?_).symm)
  exact fun l hl => hv.stable l (.inr hl)

theorem wp_chatMembers {c : Int} {Q : Post (List Int)}
    (hc : Lock.chat c ∈ G.held) (h : Q ((w.chatParticipants c).map (·.userID)) G w) :
    locking.wp (chatMembers c) G w Q :=
  wp_query_chat (fun d => by rw [d.chatParticipants_ofChat]) hc h

theorem Inv.nodup_chatMembers (h : Inv w) (c : Int) :
    ((w.chatParticipants c).map (·.userID)).Nodup := by
  have hperm := (perm_insertionSort (fun a b : Participant => a.userID ≤ b.userID)
    (w.participants.filter (·.chatID = c))).map (·.userID)
  refine hperm.nodup_iff.mpr ?_
  have heq : ((w.participants.filter (·.chatID = c)).map fun p => (c, p.userID)) =
      (w.participants.filter (·.chatID = c)).map fun p => (p.chatID, p.userID) := by
    refine map_congr_left fun p hp => ?_
    rw [show p.chatID = c by simpa using (mem_filter.mp hp).2]
  have hsub := h.participants.sublist ((filter_sublist (p := (·.chatID = c))).map _)
  rw [← heq] at hsub
  refine List.Nodup.of_map (fun u => (c, u)) ?_
  rwa [map_map]

/-! ## Fan-out -/

def FanOutSpec (f : FanOut) (d : DB) (r : FannedOut) (w : DB) : Prop :=
  (f.action = .none → d.isChatMember f.chatID f.fromID) ∧ (r.dup = true ∧ f.randomID ≠ 0 ∧ w = d ∧
        (∃ m, r.sender = some m ∧ m ∈ d.messages ∧ m.ownerID = f.fromID ∧ m.randomID = f.randomID ∧
          (m.fanoutID = 0 ∧ ptsOf r.perOwner f.fromID = some (d.ptsOf f.fromID) ∨
            ∃ pts, ptsOf r.perOwner f.fromID = some pts ∧ Answers d f.fromID f.randomID m pts)) ∨
      r.dup = false ∧ Unsent d f.fromID f.randomID ∧ ∃ as, Did as d w ∧ (∀ a ∈ as, a.adds) ∧
        OnChat f.chatID (· ∈ f.extra) as d w ∧
        (∀ x ∈ newRows as, x.action = f.action ∧ x.actionUserID = f.actionUserID) ∧
        announced as = r.perOwner.map Prod.fst ∧
        (d.isChatMember f.chatID f.fromID → ∃ m pts, r.sender = some m ∧
          ptsOf r.perOwner f.fromID = some pts ∧ Answers w f.fromID f.randomID m pts ∧
            ∀ x ∈ newRows as, CopyOf m x))

theorem ptsOf_map (hu : u ∈ owners) (f : Int → Int) :
    ptsOf (owners.map fun u => (u, f u)) u = some (f u) := by
  induction owners with
  | nil => simp at hu
  | cons x xs ih =>
    by_cases hx : x = u
    · simp [ptsOf, hx]
    · simpa [ptsOf, hx] using ih ((mem_cons.mp hu).resolve_left (Ne.symm hx))

theorem wp_ptsFor {Q : Post Owned}
    (hlock : ∀ u ∈ owners, owner u ∈ G.held) (h : Q (owners.map fun u => (u, w.ptsOf u)) G w) :
    locking.wp (ptsFor owners) G w Q := by
  induction owners generalizing Q with
  | nil => exact h
  | cons u us ih =>
    refine wp_bind (wp_getState (hlock u (by simp)) ?_)
    refine wp_bind (wp_orFail fun s hs => wp_bind ?_)
    refine ih (fun u' hu' => hlock u' (by simp [hu'])) ?_
    have hpts : w.ptsOf u = s.pts := by rw [DB.ptsOf, hs]; rfl
    rw [map_cons, hpts] at h
    exact h

theorem wp_copyPts {copies : List Message} {Q : Post Owned} (hu : owner u ∈ G.held)
    (h : ∀ pts : Owned, pts.map Prod.fst = copies.map (·.ownerID) → (∀ x ∈ pts, x.1 = u →
        ∃ c ∈ copies, c.ownerID = u ∧ w.newMessagePts u c.localID = some x.2) → Q pts G w) :
    locking.wp (copyPts copies) G w Q := by
  induction copies generalizing Q with
  | nil => exact h [] rfl (by simp)
  | cons c cs ih =>
    have hrest : ∀ pts, (c.ownerID = u → w.newMessagePts u c.localID = some pts) →
        locking.wp (do
          let rest ← copyPts cs
          pure ((c.ownerID, pts) :: rest)) G w Q := by
      intro pts hpts
      refine wp_bind (ih fun rest hkeys hrest => h _ (by simp [hkeys]) ?_)
      intro x hx hxu
      rcases mem_cons.mp hx with rfl | hx
      · exact ⟨c, by simp, hxu, hpts hxu⟩
      · obtain ⟨c', hc', hown, heq⟩ := hrest x hx hxu
        exact ⟨c', by simp [hc'], hown, heq⟩
    by_cases hc : c.ownerID = u
    · refine wp_bind (wp_newMessagePts (hc ▸ hu) fun pts hpts => hrest pts fun _ => ?_)
      rw [← hc]
      exact hpts
    · exact wp_bind (wp_newMessagePts_any fun pts => hrest pts fun h' => absurd h' hc)

theorem wp_fanoutPts {Q : Post Owned} (hw : Inv w)
    (hm : m ∈ w.messages) (hlock : ∀ u ∈ owners, owner u ∈ G.held) (howner : m.ownerID ∈ owners)
    (h : ∀ pts, (m.fanoutID = 0 ∧ ptsOf pts m.ownerID = some (w.ptsOf m.ownerID) ∨
      ∃ p, ptsOf pts m.ownerID = some p ∧
        ⟨m.ownerID, p, .newMessage, m.localID⟩ ∈ w.events) → Q pts G w) :
    locking.wp (fanoutPts m owners) G w Q := by
  have hu := hlock _ howner
  unfold fanoutPts
  split
  · exact wp_ptsFor hlock (h _ (.inl ⟨‹_›, ptsOf_map howner w.ptsOf⟩))
  rename_i h0
  refine wp_bind (wp_query fun v hv => wp_copyPts hu fun pts hkeys hpts => ?_)
  refine h pts (.inr ?_)
  -- The sender's rows in the view are those of the commit state.
  have hsame : v.ofOwner m.ownerID = w.ofOwner m.ownerID :=
    (show OwnerStable m.ownerID v w from hv.stable _ (Or.inl hu)).rows
  have hown : m ∈ (w.ofOwner m.ownerID).messages := mem_filter.mpr ⟨hm, by simp⟩
  have hcopy : m ∈ v.messagesByFanout m.fanoutID := by
    rw [← hsame] at hown
    simp only [DB.messagesByFanout, mem_insertionSort, mem_filter]
    exact ⟨(mem_filter.mp hown).1, by simp [h0]⟩
  have hkey : m.ownerID ∈ pts.map Prod.fst := by
    rw [hkeys]
    exact mem_map_of_mem hcopy
  obtain ⟨y, hy, hyu⟩ := mem_map.mp hkey
  cases hfind : pts.find? (·.1 = m.ownerID) with
  | none => exact absurd (find?_eq_none.mp hfind y hy) (by simp [hyu])
  | some x =>
    obtain ⟨c, hc, hcu, hcp⟩ := hpts x (mem_of_find?_eq_some hfind)
      (by simpa using find?_some hfind)
    simp only [DB.messagesByFanout, mem_insertionSort, mem_filter, decide_eq_true_eq] at hc
    have hcown : c ∈ (w.ofOwner m.ownerID).messages := by
      rw [← hsame]
      exact mem_filter.mpr ⟨hc.1, by simpa using hcu⟩
    have hlocal : c.localID = m.localID :=
      (hw.logs m.ownerID).fanoutIDs m hown c hcown h0 hc.2.1
    refine ⟨x.2, by rw [ptsOf, hfind]; rfl, ?_⟩
    rw [hlocal] at hcp
    exact DB.newMessagePts_some hcp

theorem not_mem_of_unused {n : Int} (hn : 0 < n) (h : Unused (.fanout n) w) (hm : m ∈ w.messages) :
    m.fanoutID ≠ n := by
  intro heq
  have : (m.ownerID, m.localID) ∈ w.copyKeys n := by
    refine mem_map.mpr ⟨m, mem_filter.mpr ⟨hm, ?_⟩, rfl⟩
    simp [heq, hn.ne']
  simp [show w.copyKeys n = [] from h] at this

theorem nodup_fanOutOwners (h : members.Nodup) : (fanOutOwners members extra).Nodup := by
  refine nodup_append.mpr ⟨h, nodup_dedup _, ?_⟩
  rintro a ha b hb rfl
  simp only [mem_dedup, mem_filter, decide_eq_true_eq] at hb
  exact hb.2.2 ha

theorem mem_fanOutOwners : u ∈ fanOutOwners members extra ↔ u ∈ members ∨ u ∈ extra ∧ u ≠ 0 := by
  by_cases h : u ∈ members <;> simp [fanOutOwners, h]

section

variable (h : Delivered now c owners delivered as w w')

include h

theorem Delivered.copyOf (hpos : 0 < c.fanoutID)
    (u l : Int) : ∀ x ∈ newRows as, CopyOf (c.row now u l) x := by
  intro x hx
  rw [h.rows] at hx
  obtain ⟨b, -, rfl⟩ := mem_map.mp hx
  exact .inr (.inl ⟨hpos.ne', rfl⟩)

theorem Delivered.answers {b : Int × Int × Int} (hb : b ∈ delivered) (hbs : b.1 = c.fromID) :
    Answers w' c.fromID c.randomID (c.row now c.fromID b.2.2) b.2.1 where
  mem := by
    rw [h.did.eq, messages_of_adds h.adds, h.rows]
    exact mem_append_right _ (mem_map.mpr ⟨b, hb, by rw [hbs]⟩)
  owner := rfl
  randomID := by simp [Copy.row]
  event := hbs ▸ h.events b hb

theorem Delivered.posts (hfresh : ∀ m ∈ w.messages, m.fanoutID ≠ c.fanoutID) : Posts as w := by
  have hrow : ∀ x ∈ newRows as, ∃ u l, x = c.row now u l := by
    intro x hx
    rw [h.rows] at hx
    obtain ⟨b, -, rfl⟩ := mem_map.mp hx
    exact ⟨b.1, b.2.2, rfl⟩
  refine ⟨fun a ha => Act.plain_of_adds (h.adds a ha), fun x hx _ m hm => ?_,
    fun x hx y hy _ _ => ?_, fun x hx _ => ?_, fun x hx ht => ?_⟩
  · obtain ⟨u, l, rfl⟩ := hrow x hx
    exact hfresh m hm
  · obtain ⟨u, l, rfl⟩ := hrow x hx
    obtain ⟨v, k, rfl⟩ := hrow y hy
    rfl
  · obtain ⟨u, l, rfl⟩ := hrow x hx
    rfl
  · obtain ⟨u, l, rfl⟩ := hrow x hx
    exact absurd ht (by simp [Copy.row])

theorem Delivered.noReply (hreply : c.replyToMsgID = 0) : ∀ x ∈ newRows as, x.replyToMsgID = 0 := by
  intro x hx
  rw [h.rows] at hx
  obtain ⟨b, -, rfl⟩ := mem_map.mp hx
  simp [Copy.row, storedReply, hreply]

end

def FanOutRows (now : Int) (f : FanOut) (d : DB) (r : FannedOut) (w : DB) : Prop :=
  r.dup = false → ∃ n owners delivered as, (∀ m ∈ d.messages, m.fanoutID ≠ n) ∧
    (∀ u, u ∈ owners ↔ d.isChatMember f.chatID u ∨ u ∈ f.extra ∧ u ≠ 0) ∧
    Delivered now (f.copy n) owners delivered as d w ∧ ∀ m, r.sender = some m → m ∈ newRows as

/-- The writes, and then the service message. -/
def Announces (now : Int) (os : List Write) (f : FanOut) (d : DB) (r : FannedOut) (w : DB) : Prop :=
  r.dup = false ∧ FanOutRows now f (locking.replay os d) r w

theorem FanOutRows.postsOnly {r : FannedOut} (h : FanOutRows now f d r w) (hdup : r.dup = false)
    (hreply : f.replyToMsgID = 0) : PostsOnly d w := by
  obtain ⟨n, owners, delivered, as, hfresh, -, hdel, -⟩ := h hdup
  exact ⟨as, hdel.did, hdel.posts hfresh, hdel.noReply hreply⟩

theorem wp_fanOutWrite {Q : Post FannedOut} (hw : Inv w)
    (hchat : w.hasChat f.chatID) (hmem : members = (w.chatParticipants f.chatID).map (·.userID))
    (hself : f.action = .none → f.fromID ∈ members) (hunsent : Unsent w f.fromID f.randomID)
    (hlock : ∀ u ∈ fanOutOwners members f.extra, owner u ∈ G.held)
    (h : ∀ G' r w', G.held ⊆ G'.held → FanOutSpec f w r w' → FanOutRows now f w r w' → Q r G' w') :
    locking.wp (fanOutWrite now f (fanOutOwners members f.extra)) G w Q := by
  refine wp_bind (wp_nextval fun n hn hunused => ?_)
  have hnodup : members.Nodup := hmem ▸ hw.nodup_chatMembers f.chatID
  have hok : DeliverOk (f.copy n) (fanOutOwners members f.extra) w :=
    ⟨hn, hchat, nodup_fanOutOwners hnodup, fun _ => hunsent,
      fun m hm heq => absurd heq (not_mem_of_unused hn hunused hm)⟩
  refine wp_bind (wp_deliverCopies (fun u hu => Or.inl (hlock u hu)) (Or.inr rfl) hok
    fun G' delivered as w' hG hdel => ?_)
  have hin : ∀ u, w.isChatMember f.chatID u → u ∈ fanOutOwners members f.extra := by
    intro u hu
    rw [← mem_chatMembers, ← hmem] at hu
    exact mem_append_left _ hu
  have hspec : ∀ sender, (w.isChatMember f.chatID f.fromID → ∃ m pts, sender = some m ∧
      ptsOf (perOwnerPts delivered) f.fromID = some pts ∧ Answers w' f.fromID f.randomID m pts ∧
        ∀ x ∈ newRows as, CopyOf m x) →
      FanOutSpec f w ⟨sender, perOwnerPts delivered, false⟩ w' := by
    intro sender hsender
    refine ⟨fun hact => ?_, .inr ⟨rfl, hunsent, as, hdel.did, hdel.adds, fun a ha => ?_,
      fun x hx => ?_, ?_, hsender⟩⟩
    · rw [← mem_chatMembers, ← hmem]
      exact hself hact
    · obtain ⟨hon, u, hu, hau⟩ := hdel.chat a ha
      refine ⟨hon w, fun u' hu' => ?_⟩
      obtain rfl : u = u' := by simpa [hau] using hu'
      rw [hdel.did.eq, isChatMember_of_adds hdel.adds, ← mem_chatMembers, ← hmem]
      exact (mem_fanOutOwners.mp hu).imp_right And.left
    · rw [hdel.rows] at hx
      obtain ⟨b, -, rfl⟩ := mem_map.mp hx
      exact ⟨rfl, rfl⟩
    · rw [hdel.grown, ← hdel.keys]
      simp [perOwnerPts]
  have hrows : ∀ sender, (∀ m, sender = some m → m ∈ newRows as) →
      FanOutRows now f w ⟨sender, perOwnerPts delivered, false⟩ w' := fun sender hsender _ =>
    ⟨n, _, delivered, as, fun m hm => not_mem_of_unused hn hunused hm,
      fun u => by rw [← mem_chatMembers, ← hmem, mem_fanOutOwners], hdel, hsender⟩
  have hlock' : ∀ u ∈ fanOutOwners members f.extra, owner u ∈ G'.held :=
    fun u hu => hG (Or.inl (hlock u hu))
  refine wp_bind (wp_reloadSender hw hdel hlock' (fun hnot => ?_) fun b hb hbs hpts => ?_)
  · refine h G' _ w' (Set.subset_union_left.trans hG) (hspec none fun hmember => ?_) (hrows none ?_)
    · exact absurd (hin _ hmember) hnot
    · simp
  · refine h G' _ w' (Set.subset_union_left.trans hG) (hspec _ fun _ => ?_) (hrows _ fun m hm => ?_)
    · exact ⟨_, b.2.1, rfl, hpts, hdel.answers hb hbs, hdel.copyOf hn _ _⟩
    · rw [hdel.rows, ← Option.some.inj hm]
      exact mem_map.mpr ⟨b, hb, by rw [hbs]⟩

theorem wp_checkDefaultMessageRestriction {exempt media : Bool}
    {mediaRights : Option (List String)} {Q : Post Unit}
    (h : Q () G w) :
    locking.wp (checkDefaultMessageRestriction rights exempt media mediaRights) G w Q := by
  unfold checkDefaultMessageRestriction
  split
  · trivial
  · exact h

theorem wp_checkFanOut {Q : Post Unit} (h : Q () G w) : locking.wp (checkFanOut f chat) G w Q := by
  unfold checkFanOut
  split
  · exact wp_checkDefaultMessageRestriction h
  · exact h

/-- The locks with which a fan-out may start: none yet, or all that it takes but the file's. -/
structure FanOutReady (f : FanOut) (G : Ctx DB Lock) (w : DB) : Prop where
  chat : Lock.chat f.chatID ∈ G.held ∨ ∀ l ∈ G.held, l.tier < 1
  owners : (∀ u, w.isChatMember f.chatID u ∨ u ∈ f.extra → owner u ∈ G.held) ∨
    ∀ l ∈ G.held, l.tier < 2
  files : ∀ l ∈ G.held, l.tier < 4

theorem FanOutReady.start {Inv : DB → Prop} : FanOutReady f (.start Inv) w :=
  ⟨.inr (by simp), .inr (by simp), by simp⟩

theorem FanOutReady.lockChat (h : FanOutReady f G w) :
    FanOutReady f (G.lock {Lock.chat f.chatID}) w where
  chat := .inl (.inr rfl)
  owners := h.owners.imp (fun h u hu => .inl (h u hu)) fun h l hl => by
    rcases hl with hl | rfl
    · exact h l hl
    · simp [tier]
  files l hl := by
    rcases hl with hl | rfl
    · exact h.files l hl
    · simp [tier]

theorem wp_fanOutLocked {Q : Post FannedOut} (hready : FanOutReady f G w)
    (hw : Inv w) (hchat : w.hasChat f.chatID) (hservice : f.action ≠ .none → f.randomID = 0)
    (h : ∀ G' r w', G.held ⊆ G'.held → FanOutSpec f w r w' → FanOutRows now f w r w' → Q r G' w') :
    locking.wp (fanOutLocked now f chat ((w.chatParticipants f.chatID).map (·.userID))) G w Q := by
  unfold fanOutLocked
  set members := (w.chatParticipants f.chatID).map (·.userID) with hmem
  split
  · trivial
  rename_i hself
  have hself : f.action = .none → f.fromID ∈ members :=
    fun hact => by_contra fun hnot => hself ⟨hact, hnot⟩
  split
  · trivial
  split
  · trivial
  have howners : ∀ u ∈ fanOutOwners members f.extra, w.isChatMember f.chatID u ∨ u ∈ f.extra := by
    intro u hu
    rw [← mem_chatMembers, ← hmem]
    exact (mem_fanOutOwners.mp hu).imp_right And.left
  refine wp_bind (wp_lockOwners (hready.owners.imp_left fun h u hu => h u (howners u hu)) ?_)
  refine wp_bind (wp_lockFileRefs ?_ fun files => ?_)
  · rintro l (hl | ⟨u, -, rfl⟩)
    · exact hready.files l hl
    · simp [tier]
  set H := (G.lock {l | ∃ u ∈ fanOutOwners members f.extra, l = owner u}).lock
    {l | ∃ id ∈ files, l = Lock.file id}
  have hlock : ∀ u ∈ fanOutOwners members f.extra, owner u ∈ H.held :=
    fun u hu => .inl (.inr ⟨u, hu, rfl⟩)
  have hH : G.held ⊆ H.held := fun l hl => .inl (.inl hl)
  have hnew : Unsent w f.fromID f.randomID → locking.wp (do
      checkFanOut f chat
      fanOutWrite now f (fanOutOwners members f.extra)) H w Q := fun hunsent =>
    wp_bind (wp_checkFanOut (wp_fanOutWrite hw hchat hmem hself hunsent hlock
      fun G' r w' hG => h G' r w' (hH.trans hG)))
  by_cases hact : f.action = .none
  · have hfrom : f.fromID ∈ fanOutOwners members f.extra := mem_append_left _ (hself hact)
    refine wp_bind (wp_dedupRow (hlock _ hfrom) ?_)
    cases hdup : w.messageByRandomID f.fromID f.randomID with
    | none => exact hnew (unsent_of_messageByRandomID hdup)
    | some m =>
      obtain ⟨hm, hmu, hmr, h0⟩ := DB.messageByRandomID_some hdup
      refine wp_bind (wp_fanoutPts hw hm hlock (hmu ▸ hfrom) fun pts hpts => ?_)
      refine h H _ w hH ⟨fun _ => ?_, .inl ⟨rfl, h0, rfl, m, rfl, hm, hmu, hmr, ?_⟩⟩
        (fun hdup => absurd hdup.symm Bool.false_ne_true)
      · rw [← mem_chatMembers]
        exact hself hact
      · rw [hmu] at hpts
        refine hpts.imp_right fun hreached => ?_
        obtain ⟨p, hp, he⟩ := hreached
        exact ⟨p, hp, hm, hmu, hmr, he⟩
  · -- A service message has no random id to look up.
    rw [dedupRow, if_neg (not_not.mpr (hservice hact))]
    exact hnew fun h0 => absurd (hservice hact) h0

theorem wp_fanOut {Q : Post FannedOut} (hready : FanOutReady f G w)
    (hw : Inv w) (hservice : f.action ≠ .none → f.randomID = 0)
    (h : ∀ G' r w', G.held ⊆ G'.held → FanOutSpec f w r w' → FanOutRows now f w r w' → Q r G' w') :
    locking.wp (fanOut now f) G w Q := by
  unfold fanOut
  split
  · trivial
  have hearly : ∀ {Q : Post Bool}, (∀ b, Q b G w) → locking.wp (earlyMember f) G w Q := by
    intro Q hQ
    unfold earlyMember
    split
    · exact wp_query fun v _ => hQ _
    · exact hQ true
  refine wp_bind (hearly fun b => ?_)
  split
  · trivial
  refine wp_lockChat hready.chat fun chat hchat => ?_
  refine wp_bind (wp_chatMembers (Or.inr rfl) ?_)
  exact wp_fanOutLocked hready.lockChat hw (DB.hasChat_of_chatByID hchat) hservice
    fun G' r w' hG => h G' r w' (Set.subset_union_left.trans hG)

theorem OnChat.imp {extra extra' : Int → Prop} (h : OnChat chatID extra as d w)
    (himp : ∀ u, extra u → extra' u) : OnChat chatID extra' as d w :=
  fun a ha => ⟨(h a ha).1, fun u hu => ((h a ha).2 u hu).imp_right (himp u)⟩

theorem wp_sendChatMessage (now : Int) (p : ChatSend) (hd : Inv d) :
    Meets (sendChatMessage now p.fanOut) d fun d r w =>
      SendChatSpec p d r w ∧ FanOutRows now p.fanOut d r w := by
  refine wp_bind (wp_fanOut .start hd (fun hact => absurd rfl hact)
    fun G' r w _ hspec hrows => ⟨?_, hrows⟩)
  obtain ⟨hmember, hcase⟩ := hspec
  have hmember := hmember rfl
  rcases hcase with ⟨hdup, h0, rfl, m, hs, hm, hmu, hmr, hpts⟩ |
    ⟨hdup, hunsent, as, hdid, hadds, hon, -, hann, hsender⟩
  · exact ⟨hmember, m, hs, hm, hmu, hmr, hpts, .inl ⟨hdup, h0, rfl⟩⟩
  · obtain ⟨m, pts, hs, hp, hans, hcopies⟩ := hsender hmember
    refine ⟨?_, m, hs, hans.mem, hans.owner, hans.randomID, .inr ⟨pts, hp, hans⟩,
      .inr ⟨hdup, hunsent, as, hdid, hon.imp (by simp [ChatSend.fanOut]), hcopies, hann⟩⟩
    rw [hdid.eq, isChatMember_of_adds hadds]
    exact hmember

/-! ## ForwardMessages -/

def ForwardDest.Ok (fromID : Int) (w : DB) : ForwardDest → Prop
  | .user id => id ≠ fromID
  | .chat c _ _ members =>
    members = (w.chatParticipants c).map (·.userID) ∧ fromID ∈ members ∧ w.hasChat c

def ForwardDest.reaches (as : List Act) : ForwardDest → Prop
  | .user _ => ∀ a ∈ as, ∀ d, a.offChat d
  | .chat c _ _ members => ∀ a ∈ as, (∀ d, a.onChat d c) ∧ ∃ u ∈ members, a.owner = some u

/-- The caller's row lies in the dialog that the forwards go to. -/
def ForwardDest.holds (m : Message) : ForwardDest → Prop
  | .user id => m.peerType = .user ∧ m.peerID = id
  | .chat id _ _ _ => m.peerType = .chat ∧ m.peerID = id

structure Forwarded (fromID : Int) (dest : ForwardDest) (rs : List Int) (perOwner : Owned)
    (messages : List ForwardedMessage) (as : List Act) (w w' : DB) : Prop where
  did : Did as w w'
  adds : ∀ a ∈ as, a.adds
  grown : announced as = perOwner.map Prod.fst
  answers : List.Forall₂ (fun r f => Answers w' fromID r f.message f.pts) rs messages
  copies : ∀ x ∈ newRows as, ∃ f ∈ messages, CopyOf f.message x ∧ Unsent w fromID f.message.randomID
  chat : dest.reaches as
  untagged : ∀ f ∈ messages, f.message.randomID = 0 → dest.holds f.message

theorem Forwarded.cons {rs : List Int} {p q : Owned} {ms ns : List ForwardedMessage}
    (h : Forwarded fromID dest [r] p ms as w v) (h' : Forwarded fromID dest rs q ns bs v w') :
    Forwarded fromID dest (r :: rs) (p ++ q) (ms ++ ns) (as ++ bs) w w' where
  did := h.did.append h'.did
  adds a ha := (mem_append.mp ha).elim (h.adds a) (h'.adds a)
  grown := by rw [announced_append, h.grown, h'.grown, map_append]
  answers := by
    have hone : List.Forall₂ (fun r f => Answers w' fromID r f.message f.pts) [r] ms := by
      refine h.answers.imp fun r f hans => ?_
      rw [h'.did.eq]
      exact hans.adds h'.adds
    cases hone with
    | cons hf hnil => cases hnil; exact .cons hf h'.answers
  copies x hx := by
    rw [newRows_append] at hx
    rcases mem_append.mp hx with hx | hx
    · obtain ⟨f, hf, hcopy, hun⟩ := h.copies x hx
      exact ⟨f, mem_append_left _ hf, hcopy, hun⟩
    · obtain ⟨f, hf, hcopy, hun⟩ := h'.copies x hx
      refine ⟨f, mem_append_right _ hf, hcopy, ?_⟩
      rw [h.did.eq] at hun
      exact hun.of_adds h.adds
  chat := by
    have h1 := h.chat
    have h2 := h'.chat
    cases dest <;> exact fun a ha => (mem_append.mp ha).elim (h1 a) (h2 a)
  untagged f hf := (mem_append.mp hf).elim (h.untagged f) (h'.untagged f)

structure ForwardRows (fromID : Int) (dest : ForwardDest) (as : List Act) (w : DB) : Prop where
  posts : Posts as w
  noReply : ∀ x ∈ newRows as, x.replyToMsgID = 0
  dialog : ∀ x ∈ newRows as, x.ownerID = fromID → dest.holds x

theorem ForwardRows.of_none (hplain : ∀ a ∈ as, a.plain) (hnew : newRows as = []) :
    ForwardRows fromID dest as w :=
  ⟨.of_none hplain hnew, by simp [hnew], by simp [hnew]⟩

theorem ForwardRows.append (h : ForwardRows fromID dest as w)
    (h' : ForwardRows fromID dest bs (runActs as w)) (hok : ActsOk as w) :
    ForwardRows fromID dest (as ++ bs) w where
  posts := h.posts.append h'.posts hok
  noReply x hx := by
    rw [newRows_append] at hx
    exact (mem_append.mp hx).elim (h.noReply x) (h'.noReply x)
  dialog x hx := by
    rw [newRows_append] at hx
    exact (mem_append.mp hx).elim (h.dialog x) (h'.dialog x)

theorem ForwardDest.Ok.adds (h : dest.Ok fromID w) (has : ∀ a ∈ as, a.adds) :
    dest.Ok fromID (runActs as w) := by
  cases dest with
  | user id => exact h
  | chat c rights creator members =>
    refine ⟨?_, h.2.1, hasChat_runActs _ h.2.2⟩
    rw [DB.chatParticipants, participants_of_adds has]
    exact h.1

theorem wp_forwardPair {toID : Int} {Q : Post (Owned × ForwardedMessage)} (hw : Inv w)
    (hne : toID ≠ fromID) (hunsent : Unsent w fromID r) (hs : owner fromID ∈ G.held)
    (hr : owner toID ∈ G.held) (h : ∀ p as w', Forwarded fromID (.user toID) [r] p.1 [p.2] as w w' →
      ForwardRows fromID (.user toID) as w → Q p G.wrote w') :
    locking.wp (forwardPair now fromID toID src r) G w Q := by
  refine wp_pair (o := fun a b => src.outRow now fromID toID r a b)
    (i := fun _ a b => src.inRow now fromID toID a b) (m := pure 0)
    (X := fun _ _ => True) hne.symm hs
    hr (fun a b => ⟨rfl, rfl, rfl, rfl, rfl⟩) (fun x a b => ⟨rfl, rfl, rfl, rfl, rfl⟩)
    (fun G w Q _ hQ => hQ 0 trivial) fun hss hrs _ _ => ?_
  set ms := src.outRow now fromID toID r (w.nextOf toID) (w.nextOf fromID) with hms
  set mr := src.inRow now fromID toID (w.nextOf fromID) (w.nextOf toID) with hmr
  have hpair : PairOk w ms mr :=
    ⟨hne.symm, ⟨hss, hrs⟩, ⟨rfl, rfl⟩, ⟨rfl, rfl⟩, ⟨rfl, rfl⟩, ⟨rfl, rfl, rfl, rfl⟩, hunsent, rfl,
      ⟨rfl, rfl, rfl, rfl, rfl⟩, ⟨rfl, rfl⟩⟩
  have hdid := hpair.did rfl rfl now
  refine wp_bind (wp_messageOrFail hs fun stored hst => ?_)
  obtain ⟨rfl, hans⟩ := answers_of_post (m := ms) (n := w.ptsOf fromID + 1) hw hdid.ok
    (mem_append_left _ (mem_append_right _ (by simp)))
    (mem_append_left _ (mem_append_right _ (by simp [hms, outRow]))) hst
  have hnew : ∀ x ∈ newRows [.post ms 0 now, .post mr 1 now], x = ms ∨ x = mr := by
    simp [newRows, Act.newMessages]
  refine h
    _ _ _ ⟨hdid, by simp [Act.adds], ?_, .cons hans .nil, fun x hx => ?_, ?_, fun f hf _ => ?_⟩
    ⟨.of_user (by simp [Act.plain]) fun x hx => ?_, fun x hx => ?_, fun x hx hown => ?_⟩
  · simp [announced, Act.announces, hms, hmr, outRow, inRow]
  · refine ⟨_, mem_singleton.mpr rfl, ?_, hunsent⟩
    rcases hnew x hx with rfl | rfl
    · exact .inl rfl
    · exact .inr (.inr ⟨hne, hpair.mirror⟩)
  · simp [ForwardDest.reaches, Act.offChat, hms, hmr, outRow, inRow]
  · rw [mem_singleton.mp hf]
    exact ⟨rfl, rfl⟩
  · rcases hnew x hx with rfl | rfl
    · exact ⟨rfl, rfl, fun _ => ⟨mr, by simp [newRows, Act.newMessages], hpair.mirror, rfl⟩⟩
    · exact ⟨rfl, rfl,
        fun _ => ⟨ms, by simp [newRows, Act.newMessages], hpair.mirror.symm rfl, rfl⟩⟩
  · rcases hnew x hx with rfl | rfl <;> rfl
  · rcases hnew x hx with rfl | rfl
    · exact ⟨rfl, rfl⟩
    · exact absurd hown hne

theorem wp_forwardCopies {c creator : Int} (hw : Inv w)
    (hdest : (ForwardDest.chat c rights creator members).Ok fromID w) (hunsent : Unsent w fromID r)
    (hlock : ∀ u ∈ members, owner u ∈ G.held) (h : ∀ G' p as w', G.held ⊆ G'.held →
      Forwarded fromID (.chat c rights creator members) [r] p.1 p.2 as w w' →
      ForwardRows fromID (.chat c rights creator members) as w → Q p G' w') :
    locking.wp (forwardCopies now fromID c members src r) G w Q := by
  obtain ⟨hmem, hfrom, hchat⟩ := hdest
  refine wp_bind (wp_nextval fun n hn hunused => ?_)
  refine wp_bind (wp_deliverCopies (fun u hu => Or.inl (hlock u hu)) (Or.inr rfl)
    ⟨hn, hchat, hmem ▸ hw.nodup_chatMembers c, fun _ => hunsent,
      fun m hm heq => absurd heq (not_mem_of_unused hn hunused hm)⟩
    fun G' delivered as w' hG hdel => ?_)
  refine wp_bind (wp_reloadSender hw hdel (fun u hu => hG (Or.inl (hlock u hu)))
    (fun hnot => absurd hfrom hnot) fun b hb hbs hpts => ?_)
  have hans := hdel.answers hb hbs
  refine h G' _ as w' (Set.subset_union_left.trans hG)
    ⟨hdel.did, hdel.adds, ?_, .cons ?_ .nil, fun x hx => ?_, hdel.chat, fun f hf _ => ?_⟩
    ⟨hdel.posts fun m hm => not_mem_of_unused hn hunused hm, hdel.noReply rfl, fun x hx _ => ?_⟩
  · rw [hdel.grown, ← hdel.keys]
    simp [perOwnerPts]
  · rw [hpts]
    exact hans
  · refine ⟨_, mem_singleton.mpr rfl, hdel.copyOf hn _ _ x hx, ?_⟩
    rw [hans.randomID]
    exact hunsent
  · rw [mem_singleton.mp hf]
    exact ⟨rfl, rfl⟩
  · rw [hdel.rows] at hx
    obtain ⟨b, -, rfl⟩ := mem_map.mp hx
    exact ⟨rfl, rfl⟩

theorem wp_forwardOne (hw : Inv w) (hdest : dest.Ok fromID w) (hfrom : owner fromID ∈ G.held)
    (hlock : ∀ u ∈ dest.owners fromID, owner u ∈ G.held)
    (h : ∀ G' p as w', G.held ⊆ G'.held → Forwarded fromID dest [r] p.1 p.2 as w w' →
      ForwardRows fromID dest as w → Q p G' w') :
    locking.wp (forwardOne now fromID dest src r) G w Q := by
  refine wp_bind (wp_dedupRow hfrom ?_)
  cases hdup : w.messageByRandomID fromID r with
  | some m =>
    refine wp_bind (wp_newMessagePts hfrom fun pts hpts => ?_)
    obtain ⟨hm, hmu, hmr, h0⟩ := DB.messageByRandomID_some hdup
    refine h G _ [] w (le_refl _) ⟨Did.nil w, by simp, rfl, .cons ⟨hm, hmu, hmr, ?_⟩ .nil, ?_, ?_,
      fun f hf hzero => ?_⟩ (.of_none (by simp) rfl)
    · exact DB.newMessagePts_some hpts
    · simp [newRows]
    · cases dest <;> simp [ForwardDest.reaches]
    · rw [mem_singleton.mp hf] at hzero
      exact absurd (hmr.symm.trans hzero) h0
  | none =>
    have hunsent := unsent_of_messageByRandomID hdup
    cases dest with
    | user toID =>
      refine wp_bind (wp_forwardPair hw hdest hunsent hfrom
        (hlock toID (by simp [ForwardDest.owners])) fun p as w' hfwd hrows => ?_)
      exact h G.wrote _ as w' (le_refl _) hfwd hrows
    | chat c rights creator members =>
      refine wp_bind (wp_query fun v _ => ?_)
      refine wp_bind (wp_checkDefaultMessageRestriction ?_)
      exact wp_forwardCopies hw hdest hunsent hlock h

theorem wp_forwardAll {pairs : List (ForwardSource × Int)} (hw : Inv w) (hdest : dest.Ok fromID w)
    (hfrom : owner fromID ∈ G.held) (hlock : ∀ u ∈ dest.owners fromID, owner u ∈ G.held)
    (h : ∀ G' p as w', Forwarded fromID dest (pairs.map Prod.snd) p.1 p.2 as w w' →
      ForwardRows fromID dest as w → Q p G' w') :
    locking.wp (forwardAll now fromID dest pairs) G w Q := by
  induction pairs generalizing G w Q with
  | nil =>
    refine h G ([], []) [] w ⟨Did.nil w, by simp, rfl, .nil, by simp [newRows], ?_, by simp⟩
      (.of_none (by simp) rfl)
    cases dest <;> simp [ForwardDest.reaches]
  | cons x xs ih =>
    obtain ⟨src, r⟩ := x
    refine wp_bind (wp_forwardOne hw hdest hfrom hlock fun G₁ p as v hG hone hrow => ?_)
    refine wp_bind (ih (hone.did.inv hw) (hone.did.eq ▸ hdest.adds hone.adds) (hG hfrom)
      (fun u hu => hG (hlock u hu)) fun G₂ q bs w' hrest hrows => ?_)
    exact h G₂ _ _ w' (hone.cons hrest) (hrow.append (hone.did.eq ▸ hrows) hone.did.ok)

theorem wp_ensureAll {Q : Post Unit} (hlock : ∀ u ∈ us, owner u ∈ G.held)
    (h : ∀ G', G.held ⊆ G'.held → Q () G' (runActs (us.map fun u => .ensure u now) w)) :
    locking.wp (ensureAll now us) G w Q := by
  induction us generalizing G w Q with
  | nil => exact h G (le_refl _)
  | cons u us ih =>
    refine wp_bind (wp_ensureUpdateState (hlock u (by simp)) ?_)
    exact ih (fun x hx => hlock x (by simp [hx])) fun G' hG => h G' hG

theorem wp_forwardDest {peerID : Int} {toChat : Bool} {Q : Post ForwardDest}
    (ha : ∀ l ∈ G.held, l.tier < 1) (hself : toChat = false → peerID ≠ fromID)
    (h : ∀ G' dest, (∀ l ∈ G'.held, l.tier < 2) → dest.Ok fromID w →
      (toChat = true → ∃ rights creator members, dest = .chat peerID rights creator members) →
      (toChat = false → dest = .user peerID) → Q dest G' w) :
    locking.wp (forwardDest fromID (forwardPeerType toChat) peerID) G w Q := by
  unfold forwardDest
  cases toChat with
  | false =>
    exact h G (.user peerID) (fun l hl => Nat.lt_succ_of_lt (ha l hl)) (hself rfl) (by simp)
      fun _ => rfl
  | true =>
    refine wp_lockChat (.inr ha) fun chat hchat => ?_
    refine wp_bind (wp_query_chat (fun d => d.isChatMember_ofChat peerID fromID) (Or.inr rfl) ?_)
    split
    · trivial
    rename_i hmember
    refine wp_bind (wp_chatMembers (Or.inr rfl) ?_)
    refine h _ _ ?_ ⟨rfl, ?_, DB.hasChat_of_chatByID hchat⟩ (fun _ => ⟨_, _, _, rfl⟩) (by simp)
    · rintro l (hl | rfl)
      · exact Nat.lt_succ_of_lt (ha l hl)
      · simp [tier]
    · rw [mem_chatMembers]
      simpa using hmember

/-- What forwarding did to the rows, and where the messages lie that it answers with. -/
def ForwardEffect (fromID : Int) (toChat : Bool) (peerID : Int) (d : DB)
    (messages : List ForwardedMessage) (w : DB) : Prop :=
  (∃ as, Did as d w ∧ (∀ a ∈ as, a.adds) ∧ Posts as d ∧ (∀ x ∈ newRows as, x.replyToMsgID = 0) ∧
    ∀ x ∈ newRows as, x.ownerID = fromID →
      x.peerType = forwardPeerType toChat ∧ x.peerID = peerID) ∧
    ∀ f ∈ messages, f.message.randomID = 0 →
      f.message.peerType = forwardPeerType toChat ∧ f.message.peerID = peerID

theorem wp_forwardMessages (now fromID : Int) (toChat : Bool) (peerID : Int)
    (sources : List ForwardSource) (randomIDs : List Int) (hd : Inv d) :
    locking.wp (forwardMessages now fromID (forwardPeerType toChat) peerID sources randomIDs)
      (.start Inv) d fun r _ w =>
        Ends (fun d r w => ForwardSpec fromID toChat peerID randomIDs d r.1 r.2 w ∧
          ForwardEffect fromID toChat peerID d r.2 w) d r w := by
  unfold forwardMessages
  split
  · trivial
  rename_i hlen
  have hlen : randomIDs.length = sources.length := by
    by_contra hne
    exact hlen (.inr hne)
  split
  · trivial
  rename_i hself
  have hself : toChat = false → peerID ≠ fromID := by
    rintro rfl heq
    exact hself ⟨rfl, heq⟩
  refine wp_bind (wp_forwardDest (by simp) hself fun G dest hfirst hdest hchat huser => ?_)
  refine wp_bind (wp_lockOwners (.inr hfirst) ?_)
  refine wp_bind (wp_lockFileRefs ?_ fun files => ?_)
  · rintro l (hl | ⟨u, -, rfl⟩)
    · exact Nat.lt_trans (hfirst l hl) (by decide)
    · simp [tier]
  set H := (G.lock {l | ∃ u ∈ fromID :: dest.owners fromID, l = owner u}).lock
    {l | ∃ id ∈ files, l = Lock.file id}
  have hfrom : owner fromID ∈ H.held := .inl (.inr ⟨fromID, by simp, rfl⟩)
  have hlock : ∀ u ∈ dest.owners fromID, owner u ∈ H.held :=
    fun u hu => .inl (.inr ⟨u, by simp [hu], rfl⟩)
  refine wp_bind (wp_ensureAll hlock fun G₁ hG₁ => ?_)
  have hens := did_ensure now (dest.owners fromID) d
  have hadds : ∀ a ∈ (dest.owners fromID).map fun u => Act.ensure u now, a.adds := by
    simp [Act.adds]
  refine wp_bind (wp_forwardAll (hens.inv hd) (hdest.adds hadds) (hG₁ hfrom)
    (fun u hu => hG₁ (hlock u hu)) fun G₂ p as w hfwd hrows => ?_)
  have hsnd : (sources.zip randomIDs).map Prod.snd = randomIDs :=
    map_snd_zip (by omega)
  rw [hsnd] at hfwd
  have hnil : newRows ((dest.owners fromID).map fun u => Act.ensure u now) = [] :=
    newRows_eq_nil (by simp [Act.newMessages])
  have hquiet : announced ((dest.owners fromID).map fun u => Act.ensure u now) = [] :=
    filterMap_eq_nil_iff.mpr (by simp [Act.announces])
  have hall : ForwardRows fromID dest _ d :=
    (ForwardRows.of_none (fun a ha => Act.plain_of_adds (hadds a ha)) hnil).append hrows hens.ok
  have hholds : ∀ {m}, dest.holds m → m.peerType = forwardPeerType toChat ∧ m.peerID = peerID := by
    intro m hm
    cases toChat with
    | false =>
      obtain rfl := huser rfl
      exact hm
    | true =>
      obtain ⟨rights, creator, members, rfl⟩ := hchat rfl
      exact hm
  have heffect : ForwardEffect fromID toChat peerID d p.2 w := by
    refine ⟨⟨_, hens.append hfwd.did, fun a ha => ?_, hall.posts, hall.noReply,
      fun x hx hown => ?_⟩, fun f hf hzero => hholds (hfwd.untagged f hf hzero)⟩
    · exact (mem_append.mp ha).elim (hadds a) (hfwd.adds a)
    · exact hholds (hall.dialog x hx hown)
  refine ⟨⟨hfwd.answers, _, hens.append hfwd.did, ?_, fun x hx => ?_, fun htrue => ?_,
    fun hfalse => ?_⟩, heffect⟩
  · rw [announced_append, hquiet, nil_append, hfwd.grown]
  · rw [newRows_append, hnil, nil_append] at hx
    obtain ⟨f, hf, hcopy, hun⟩ := hfwd.copies x hx
    exact ⟨f, hf, hcopy, hun.of_adds hadds⟩
  · obtain ⟨rights, creator, members, rfl⟩ := hchat htrue
    obtain ⟨hmem, hin, -⟩ := hdest
    have hstays : ∀ u, w.isChatMember peerID u = d.isChatMember peerID u := by
      intro u
      rw [hfwd.did.eq, isChatMember_of_adds hfwd.adds, isChatMember_of_adds hadds]
    refine ⟨?_, fun a ha => ?_⟩
    · rw [hstays, ← mem_chatMembers, ← hmem]
      exact hin
    · rcases mem_append.mp ha with ha | ha
      · obtain ⟨v, hv, rfl⟩ := mem_map.mp ha
        refine ⟨trivial, fun u hu => .inl ?_⟩
        obtain rfl : v = u := by simpa [Act.owner] using hu
        rw [hstays, ← mem_chatMembers, ← hmem]
        exact hv
      · obtain ⟨hon, v, hv, hav⟩ := hfwd.chat a ha
        refine ⟨hon d, fun u hu => .inl ?_⟩
        obtain rfl : v = u := by simpa [hav] using hu
        rw [hstays, ← mem_chatMembers, ← hmem]
        exact hv
  · obtain rfl := huser hfalse
    refine offChat_append (fun a ha => ?_) fun a ha => hfwd.chat a ha d
    obtain ⟨v, -, rfl⟩ := mem_map.mp ha
    trivial

end TelegramServer.Store
