import TelegramServer.Api.Hydrate
import TelegramServer.Store.Runs
import TelegramServer.Tx.Scripts

/-!
# Handlers

A handler of a request reads committed states and calls the store's transactions, while the
other requests go on. What it may rely on between two of its steps is that the logs and the
message rows only grow.
-/

namespace TelegramServer.Api

open Tx TelegramServer.Store

variable {states : Owned} {files : List File} {c : StoreConfig}

inductive RpcErr where
  | internal
  | floodWait
  | limitInvalid
  | peerIDInvalid
  | messageIDInvalid
  | mediaInvalid
  | chatWriteForbidden
  | chatAdminRequired

abbrev Handler (R : Type) := Script DB Reply StoreErr Call RpcErr R

/-- In the run `c` the handler may have returned `r` in the state `d`, while `os` were the calls of
others. -/
def Served (states : Owned) (files : List File) (c : StoreConfig) {R : Type} (h : Handler R)
    (os : List StoreRecord) (r : R) (d : DB) : Prop :=
  h.Plays (.initial states files) c.log os r d

def Moves (d d' : DB) : Prop :=
  Grows d d' ∧ (Inv d → Inv d')

theorem Moves.refl (d : DB) : Moves d d :=
  ⟨.refl d, id⟩

theorem Moves.trans (d₁ d₂ d₃ : DB) (h : Moves d₁ d₂) (h' : Moves d₂ d₃) : Moves d₁ d₃ :=
  ⟨h.1.trans h'.1, h'.2 ∘ h.2⟩

def Recorded (x : StoreRecord) : Prop :=
  locking.RecordOk Inv Spec x ∧ ∀ a, x.outcome.answer = some a → Effect x.call x.pre a x.post

/-- The handler, begun in `d`, makes only calls of `G`, and each of its answers meets `Q` with the
state it is given in. -/
def Ensures {R : Type} (G : Call → Prop) (h : Handler R) (d : DB) (Q : R → DB → Prop) : Prop :=
  h.wp Moves G Recorded d Q

variable {R R' : Type} {G : Call → Prop} {h : Handler R} {d : DB} {Q Q' : R → DB → Prop}

theorem Ensures.bind {f : R → Handler R'} {Q : R' → DB → Prop}
    (hh : Ensures G h d fun r d' => Ensures G (f r) d' Q) : Ensures G (h >>= f) d Q :=
  Script.wp_bind Moves.refl hh

theorem Ensures.mono (hQ : ∀ r d, Q r d → Q' r d) (hh : Ensures G h d Q) : Ensures G h d Q' :=
  Script.wp_mono hQ hh

theorem Ensures.framed (hh : Ensures G h d Q) : Ensures G h d fun r d' => Moves d d' ∧ Q r d' :=
  Script.wp_framed Moves.trans (fun _ hx => ⟨hx.1.2.2.1, fun _ => hx.1.2.1⟩) (.refl d) hh

/-- What a handler ensures from the start holds of its answers in every run; the state it answers in
leads to the run's; and what the others and the calls of `G` keep is kept. -/
theorem Served.spec {r : R} {os : List StoreRecord}
    (hreached : Reached states files c) (hserved : Served states files c h os r d)
    (hh : Ensures G h (.initial states files) Q) :
    Q r d ∧ Grows d c.db ∧ ∀ J : DB → Prop, (∀ x, Recorded x → G x.call → J x.pre → J x.post) →
      (∀ x ∈ os, Recorded x → J x.pre → J x.post) → J (.initial states files) → J d := by
  have hok := hreached.ok
  obtain ⟨hQ, hkept⟩ := Script.wp_sound Moves.refl Moves.trans hserved hok.leads
    (fun x hx => ⟨hok.records x hx, fun a ha => hreached.effect hx ha⟩)
    (fun x hx => ⟨(hok.records x hx).2.2.1, fun _ => (hok.records x hx).2.1⟩) hh
  refine ⟨hQ, ?_, hkept⟩
  obtain ⟨rs, hrs, hleads⟩ := hserved.leads hok.leads
  exact hleads.grows locking fun x hx => (hok.records x (hrs.subset hx)).2.2.1

/-- `requireMember`: an early error, repeated by the store under the chat's lock. -/
def requireMember (chatID userID : Int) : Handler Unit := do
  let member ← .query (·.isChatMember chatID userID)
  if member then pure () else .fail .peerIDInvalid

/-- `MessagePts`: the pts at which the owner's row entered the log. -/
def messagePts (ownerID localID : Int) : Handler Int := do
  let pts ← .query (·.newMessagePts ownerID localID)
  .orFail .internal pts

def loadDocs (env : Env) (msgs : List Message) : Handler (Int → Option Wire.Document) :=
  .query fun d => loadFiles env { store := d } msgs

end TelegramServer.Api
