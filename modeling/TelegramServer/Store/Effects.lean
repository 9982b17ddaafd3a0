import TelegramServer.Store.StatementRules

/-!
# What the calls do to the rows

Which rows an edit or a reaction reaches, and what the rows look like that a call posts: the
mirror of a 1:1 message and the copies of a chat message carry the same text, and the number of
a fan-out is new.
-/

namespace TelegramServer.Store

open Tx Tx.Table List

def Message.key (m : Message) : Int × Int := (m.ownerID, m.localID)

/-- The row `x` carries the message of `m` and a change of it reaches `x`: the row itself, in a
chat the copies of its members, else the mirror. -/
def DB.reaches (d : DB) (m x : Message) : Bool :=
  Message.isAt m.ownerID m.localID x ||
    if m.peerType = .chat then
      m.fanoutID ≠ 0 && x.fanoutID = m.fanoutID && d.isChatMember m.peerID x.ownerID
    else m.peerID ≠ m.ownerID && Message.isAt m.peerID m.peerLocalID x

/-- `keys` are those of the rows that a change of `m` reaches, one for each owner. -/
structure Reach (d : DB) (m : Message) (keys : Owned) : Prop where
  mem : ∀ k, k ∈ keys ↔ ∃ x ∈ d.messages, d.reaches m x ∧ x.key = k
  owners : (keys.map Prod.fst).Nodup

variable {as : List Act} {d w : DB} {keys : Owned} {m m' : Message}

theorem Message.key_eq_iff {k : Int × Int} : m.key = k ↔ Message.isAt k.1 k.2 m := by
  rw [Message.isAt_iff, Message.key, Prod.ext_iff]

theorem Message.Kept.key (h : m.Kept m') : m.key = m'.key :=
  Prod.ext h.ownerID h.localID

theorem Inv.row_of_key (h : Inv d) (hm : m ∈ d.messages) (hm' : m' ∈ d.messages)
    (hk : m.key = m'.key) : m = m' :=
  row_unique h.logs hm hm' (congrArg Prod.fst hk) (congrArg Prod.snd hk)

theorem Reach.mem_key {x : Message} (h : Reach d m keys) (hd : Inv d) (hx : x ∈ d.messages) :
    x.key ∈ keys ↔ d.reaches m x := by
  rw [h.mem]
  constructor
  · rintro ⟨y, hy, hr, hk⟩
    exact hd.row_of_key hy hx hk ▸ hr
  · exact fun hr => ⟨x, hx, hr, rfl⟩

theorem Inv.state_of_row (h : Inv d) (hm : m ∈ d.messages) : (d.getState m.ownerID).isSome := by
  have hmem : m.localID ∈ (d.ofOwner m.ownerID).messages.map (·.localID) :=
    mem_map_of_mem (mem_filter.mpr ⟨hm, by simp⟩)
  rw [show _ = _ from (h.logs m.ownerID).messages, d.nextOf_ofOwner, mem_upto, DB.nextOf] at hmem
  cases hs : d.getState m.ownerID with
  | some s => rfl
  | none =>
    rw [hs] at hmem
    simp only [Option.map_none, Option.getD_none] at hmem
    omega

/-- An edit changes the live, plain, outgoing message of a caller who is still in its chat. -/
structure Editable (d : DB) (owner localID : Int) (m : Message) : Prop where
  mem : m ∈ d.messages
  own : Message.isAt owner localID m
  out : m.out = true
  live : m.deleted = false
  plain : m.action = .none
  member : m.peerType = .chat → d.isChatMember m.peerID owner

def editKeys (now : Int) (text : String) (keys : Owned) : List Act :=
  keys.map fun k => .edit k.1 k.2 text now

def EditSpec (now owner localID : Int) (text : String) (d : DB) (r : Int × Int) (w : DB) : Prop :=
  ∃ m keys, Editable d owner localID m ∧ r = (m.peerID, d.ptsOf owner + 1) ∧ Reach d m keys ∧
    Did (editKeys now text keys) d w

def reactKeys (reactor : Int) (reaction : Option String) (keys : Owned) : List Act :=
  keys.map fun k => .side (reactionWrite k.1 k.2 reactor reaction)

def ReactSpec (owner localID : Int) (reaction : Option String) (d : DB) (affected : Owned)
    (w : DB) : Prop :=
  ∃ m ∈ d.messages, Message.isAt owner localID m ∧ m.deleted = false ∧ Reach d m affected ∧
    Did (reactKeys owner reaction affected) d w

theorem messages_editKeys (now : Int) (text : String) (keys : Owned) (d : DB) :
    (runActs (editKeys now text keys) d).messages = d.messages.map fun x =>
      if x.key ∈ keys then { x with text, editDate := some now } else x := by
  induction keys generalizing d with
  | nil => simp [editKeys]
  | cons k ks ih =>
    have hone : ((Act.edit k.1 k.2 text now).apply d).messages = d.messages.map fun x =>
        if x.key = k then { x with text, editDate := some now } else x := by
      change updateWhere _ _ d.messages = _
      refine map_congr_left fun x _ => ?_
      simp only [Message.key_eq_iff]
    change (runActs (editKeys now text ks) _).messages = _
    rw [ih, hone, map_map]
    refine map_congr_left fun x _ => ?_
    simp only [Function.comp_apply, mem_cons]
    by_cases hk : x.key = k
    · simp only [hk, if_true, true_or]
      split <;> rfl
    · simp [hk]

theorem events_editKeys (now : Int) (text : String) (hnodup : (keys.map Prod.fst).Nodup) (d : DB) :
    (runActs (editKeys now text keys) d).events =
      d.events ++ keys.map fun k => ⟨k.1, d.ptsOf k.1 + 1, .edit, k.2⟩ := by
  induction keys generalizing d with
  | nil => simp [editKeys]
  | cons k ks ih =>
    obtain ⟨hk, hnodup⟩ := nodup_cons.mp hnodup
    change (runActs (editKeys now text ks) ((Act.edit k.1 k.2 text now).apply d)).events = _
    rw [ih hnodup]
    change (d.events ++ [_]) ++ _ = _
    rw [append_assoc, map_cons, singleton_append]
    congr 2
    refine map_congr_left fun k' hk' => ?_
    have hne : (Act.edit k.1 k.2 text now).owner ≠ some k'.1 := by
      intro heq
      exact hk (Option.some.inj heq ▸ mem_map_of_mem hk')
    rw [ptsOf_act_of_ne hne]

theorem tables_editKeys (now : Int) (text : String) (keys : Owned) (d : DB) :
    runActs (editKeys now text keys) d =
      { d with
        messages := (runActs (editKeys now text keys) d).messages
        events := (runActs (editKeys now text keys) d).events
        updateStates := (runActs (editKeys now text keys) d).updateStates } := by
  induction keys generalizing d with
  | nil => rfl
  | cons k ks ih =>
    change runActs (editKeys now text ks) ((Act.edit k.1 k.2 text now).apply d) = _
    rw [ih]
    rfl

def Act.plain : Act → Bool
  | .edit _ _ _ _ => false
  | .side (.upsertReaction _ _ _ _) => false
  | .side (.deleteReaction _ _ _) => false
  | _ => true

theorem Act.plain_of_adds {a : Act} (h : a.adds) : a.plain := by
  cases a with
  | ensure | post => rfl
  | _ => exact absurd h Bool.false_ne_true

/-- The acts change no text, and what they post are whole messages: a fan-out has a new number and
one text, and goes out from its author's row; a 1:1 row comes with a mirror of the same text. -/
structure Posts (as : List Act) (d : DB) : Prop where
  plain : ∀ a ∈ as, a.plain
  fresh : ∀ x ∈ newRows as, x.fanoutID ≠ 0 → ∀ m ∈ d.messages, m.fanoutID ≠ x.fanoutID
  copies : ∀ x ∈ newRows as, ∀ y ∈ newRows as, x.fanoutID ≠ 0 → y.fanoutID = x.fanoutID →
    y.text = x.text
  author : ∀ x ∈ newRows as, x.peerType = .chat → x.out = decide (x.ownerID = x.fromID)
  mirrors : ∀ x ∈ newRows as, x.peerType = .user → x.peerID ≠ x.ownerID →
    ∃ y ∈ newRows as, Mirror x y ∧ y.text = x.text

theorem Posts.of_none (hplain : ∀ a ∈ as, a.plain) (hnew : newRows as = []) : Posts as d :=
  ⟨hplain, by simp [hnew], by simp [hnew], by simp [hnew], by simp [hnew]⟩

theorem Posts.nil (d : DB) : Posts [] d := .of_none (by simp) rfl

theorem Posts.of_user (hplain : ∀ a ∈ as, a.plain)
    (h : ∀ x ∈ newRows as, x.fanoutID = 0 ∧ x.peerType = .user ∧
      (x.peerID ≠ x.ownerID → ∃ y ∈ newRows as, Mirror x y ∧ y.text = x.text)) : Posts as d where
  plain := hplain
  fresh x hx h0 := absurd (h x hx).1 h0
  copies x hx _ _ h0 := absurd (h x hx).1 h0
  author x hx ht := absurd ht (by simp [(h x hx).2.1])
  mirrors x hx _ := (h x hx).2.2

theorem Posts.append {bs : List Act} (h : Posts as d) (h' : Posts bs (runActs as d))
    (hok : ActsOk as d) : Posts (as ++ bs) d := by
  -- The later rows have numbers that neither the old nor the earlier rows have.
  have hlater : ∀ x ∈ newRows bs, x.fanoutID ≠ 0 → ∀ m, m ∈ d.messages ∨ m ∈ newRows as →
      m.fanoutID ≠ x.fanoutID := by
    intro x hx h0 m hm heq
    have hfrozen : m.frozen ∈ (runActs as d).messages.map Message.frozen := by
      rw [hok.frozen_messages, mem_append]
      exact hm.imp mem_map_of_mem mem_map_of_mem
    obtain ⟨y, hy, hyf⟩ := mem_map.mp hfrozen
    exact h'.fresh x hx h0 y hy ((Message.kept hyf).fanoutID.trans heq)
  constructor
  · exact fun a ha => (mem_append.mp ha).elim (h.plain a) (h'.plain a)
  · intro x hx h0 m hm
    rw [newRows_append] at hx
    rcases mem_append.mp hx with hx | hx
    · exact h.fresh x hx h0 m hm
    · exact hlater x hx h0 m (.inl hm)
  · intro x hx y hy h0 heq
    rw [newRows_append] at hx hy
    rcases mem_append.mp hx with hx | hx <;> rcases mem_append.mp hy with hy | hy
    · exact h.copies x hx y hy h0 heq
    · exact absurd heq.symm (hlater y hy (heq.trans_ne h0) x (.inr hx))
    · exact absurd heq (hlater x hx h0 y (.inr hy))
    · exact h'.copies x hx y hy h0 heq
  · intro x hx
    rw [newRows_append] at hx
    exact (mem_append.mp hx).elim (h.author x) (h'.author x)
  · intro x hx ht hne
    rw [newRows_append] at hx ⊢
    rcases mem_append.mp hx with hx | hx
    · obtain ⟨y, hy, hmir⟩ := h.mirrors x hx ht hne
      exact ⟨y, mem_append_left _ hy, hmir⟩
    · obtain ⟨y, hy, hmir⟩ := h'.mirrors x hx ht hne
      exact ⟨y, mem_append_right _ hy, hmir⟩

def PostsOnly (d w : DB) : Prop :=
  ∃ as, Did as d w ∧ Posts as d ∧ ∀ x ∈ newRows as, x.replyToMsgID = 0

theorem PostsOnly.of_none (h : Did as d w) (hplain : ∀ a ∈ as, a.plain) (hnew : newRows as = []) :
    PostsOnly d w :=
  ⟨as, h, .of_none hplain hnew, by simp [hnew]⟩

theorem PostsOnly.refl (d : DB) : PostsOnly d d := .of_none (.nil d) (by simp) rfl

theorem PostsOnly.trans {v : DB} (h : PostsOnly d v) (h' : PostsOnly v w) : PostsOnly d w := by
  obtain ⟨as, hdid, hposts, hreply⟩ := h
  obtain ⟨bs, hdid', hposts', hreply'⟩ := h'
  refine ⟨as ++ bs, hdid.append hdid', hposts.append (hdid.eq ▸ hposts') hdid.ok, fun x hx => ?_⟩
  rw [newRows_append] at hx
  exact (mem_append.mp hx).elim (hreply x) (hreply' x)

theorem PostsOnly.side {o : Write} (hok : (Act.side o).Ok w) (hplain : (Act.side o).plain) :
    PostsOnly w (o.apply w) := by
  have hdid : Did [.side o] w (o.apply w) := ⟨⟨hok, trivial⟩, (fun _ hx => nomatch hx), rfl⟩
  exact .of_none hdid (by simpa using hplain) rfl

end TelegramServer.Store
