import Mathlib.Data.List.Basic

/-!
# Parties that pass messages on for events

A party handles events of type `ε` one after the other. For some of them it makes an item
`σ` known to the other party, by a message that names the item and has a kind `κ`; for some
it needs such a message. The messages do not name the event that they are for: what the
`k`-th one that a party sends is about, and what the `k`-th one that it needs has to say,
follow from the duties that the events impose, in their order.
-/
namespace Columbo

/-- A message names an item of its sender. -/
structure Message (σ κ : Type) where
  origin : σ
  kind : κ
  deriving DecidableEq

/-- What a party has to do for an event: note an item and announce it, only note it, or
attach an item to a message that it needs. -/
inductive Duty (κ : Type)
  | announce (kind : κ)
  | hold
  | attach (kind : κ)
  deriving DecidableEq

/-- What a party does; `expected` is what it checks of the message. -/
inductive Deed (ε σ κ : Type)
  | note (item : σ) (ev : ε)
  | send (m : Message σ κ)
  | receive (expected : Option κ) (m : Message σ κ)
  | attach (item : σ) (ev : ε) (m : Message σ κ)
  deriving DecidableEq

variable {ε σ κ : Type}

/-- The deeds that do one duty. -/
inductive Fulfils (ev : ε) : Duty κ → List (Deed ε σ κ) → Prop
  | announce {item : σ} {m : Message σ κ} (horigin : m.origin = item) :
    Fulfils ev (.announce m.kind) [.note item ev, .send m]
  | hold {item : σ} : Fulfils ev .hold [.note item ev]
  | attach {item : σ} {m : Message σ κ} :
    Fulfils ev (.attach m.kind) [.receive (some m.kind) m, .attach item ev m]

/-- The deeds when a duty is not finished. -/
inductive Starts (ev : ε) : Duty κ → List (Deed ε σ κ) → Prop
  | announce {kind : κ} {item : σ} : Starts ev (.announce kind) [.note item ev]
  | attach {m : Message σ κ} : Starts ev (.attach m.kind) [.receive (some m.kind) m]

/-- All the duties are done. -/
inductive Done : List (ε × Duty κ) → List (Deed ε σ κ) → Prop
  | nil : Done [] []
  | concat {duties : List (ε × Duty κ)} {deeds l : List (Deed ε σ κ)} {ev : ε} {duty : Duty κ}
    (hdone : Done duties deeds) (hfulfils : Fulfils ev duty l) :
    Done (duties ++ [(ev, duty)]) (deeds ++ l)

/-- The first duties are done, and the next one may have been started. -/
inductive Conforms : List (ε × Duty κ) → List (Deed ε σ κ) → Prop
  | done {duties rest : List (ε × Duty κ)} {deeds : List (Deed ε σ κ)} (hdone : Done duties deeds) :
    Conforms (duties ++ rest) deeds
  | starts {duties rest : List (ε × Duty κ)} {deeds l : List (Deed ε σ κ)} {ev : ε} {duty : Duty κ}
    (hdone : Done duties deeds) (hstarts : Starts ev duty l) :
    Conforms (duties ++ (ev, duty) :: rest) (deeds ++ l)

/-- The kinds of the messages to be sent. -/
def announced (duties : List (ε × Duty κ)) : List κ :=
  duties.filterMap fun
    | (_, .announce kind) => some kind
    | _ => none

/-- The kinds of the messages that are needed. -/
def awaited (duties : List (ε × Duty κ)) : List κ :=
  duties.filterMap fun
    | (_, .attach kind) => some kind
    | _ => none

/-- For every item to be noted, whether it is to be announced. -/
def announcing (duties : List (ε × Duty κ)) : List Bool :=
  duties.filterMap fun
    | (_, .announce _) => some true
    | (_, .hold) => some false
    | (_, .attach _) => none

/-- The events that items are announced for. -/
def announcers (duties : List (ε × Duty κ)) : List ε :=
  duties.filterMap fun
    | (ev, .announce _) => some ev
    | _ => none

/-- The events that items are attached for. -/
def attachers (duties : List (ε × Duty κ)) : List ε :=
  duties.filterMap fun
    | (ev, .attach _) => some ev
    | _ => none

def noted (deeds : List (Deed ε σ κ)) : List (σ × ε) :=
  deeds.filterMap fun
    | .note item ev => some (item, ev)
    | _ => none

def sent (deeds : List (Deed ε σ κ)) : List (Message σ κ) :=
  deeds.filterMap fun
    | .send m => some m
    | _ => none

def received (deeds : List (Deed ε σ κ)) : List (Message σ κ) :=
  deeds.filterMap fun
    | .receive _ m => some m
    | _ => none

def attached (deeds : List (Deed ε σ κ)) : List (σ × ε × Message σ κ) :=
  deeds.filterMap fun
    | .attach item ev m => some (item, ev, m)
    | _ => none

/-- The items to be announced. -/
def named (duties : List (ε × Duty κ)) (deeds : List (Deed ε σ κ)) : List (σ × ε) :=
  ((noted deeds).zip (announcing duties)).filterMap fun (note, flag) =>
    if flag then some note else none

section

variable {duties duties' : List (ε × Duty κ)} {deeds deeds' l : List (Deed ε σ κ)} {ev : ε}
  {duty : Duty κ}

@[simp] theorem announced_append : announced (duties ++ duties') =
    announced duties ++ announced duties' := List.filterMap_append

@[simp] theorem awaited_append : awaited (duties ++ duties') = awaited duties ++ awaited duties' :=
  List.filterMap_append

@[simp] theorem announcing_append : announcing (duties ++ duties') =
    announcing duties ++ announcing duties' := List.filterMap_append

@[simp] theorem announcers_append : announcers (duties ++ duties') =
    announcers duties ++ announcers duties' := List.filterMap_append

@[simp] theorem attachers_append : attachers (duties ++ duties') =
    attachers duties ++ attachers duties' := List.filterMap_append

@[simp] theorem noted_append : noted (deeds ++ deeds') = noted deeds ++ noted deeds' :=
  List.filterMap_append

@[simp] theorem sent_append : sent (deeds ++ deeds') = sent deeds ++ sent deeds' :=
  List.filterMap_append

@[simp] theorem received_append : received (deeds ++ deeds') = received deeds ++ received deeds' :=
  List.filterMap_append

@[simp] theorem attached_append : attached (deeds ++ deeds') = attached deeds ++ attached deeds' :=
  List.filterMap_append

theorem mem_announced {kind : κ} (h : kind ∈ announced duties) :
    ∃ ev, (ev, .announce kind) ∈ duties := by
  obtain ⟨⟨ev, duty⟩, hduty, hkind⟩ := List.mem_filterMap.mp h
  cases duty with
  | announce kind' =>
    obtain rfl := Option.some.inj hkind
    exact ⟨ev, hduty⟩
  | hold | attach => cases hkind

theorem mem_awaited {kind : κ} (h : kind ∈ awaited duties) : ∃ ev, (ev, .attach kind) ∈ duties := by
  obtain ⟨⟨ev, duty⟩, hduty, hkind⟩ := List.mem_filterMap.mp h
  cases duty with
  | attach kind' =>
    obtain rfl := Option.some.inj hkind
    exact ⟨ev, hduty⟩
  | hold | announce => cases hkind

theorem named_append (hlength : (noted deeds).length = (announcing duties).length) :
    named (duties ++ duties') (deeds ++ deeds') = named duties deeds ++ named duties' deeds' := by
  unfold named
  rw [noted_append, announcing_append, List.zip_append hlength, List.filterMap_append]

/-- The deeds do the duties in their order. -/
structure Balanced (duties : List (ε × Duty κ)) (deeds : List (Deed ε σ κ)) : Prop where
  length_noted : (noted deeds).length = (announcing duties).length
  origins : (sent deeds).map Message.origin = (named duties deeds).map Prod.fst
  kinds : (sent deeds).map Message.kind = announced duties
  messages : (attached deeds).map (·.2.2) = received deeds
  received_kinds : (received deeds).map Message.kind = awaited duties
  announcers : (named duties deeds).map Prod.snd = announcers duties
  attachers : (attached deeds).map (·.2.1) = attachers duties
  expected : ∀ kind m, .receive (some kind) m ∈ deeds → m.kind = kind

theorem Balanced.append (h : Balanced duties deeds) (h' : Balanced duties' deeds') :
    Balanced (duties ++ duties') (deeds ++ deeds') := by
  constructor
  · rw [noted_append, announcing_append, List.length_append, List.length_append, h.length_noted,
      h'.length_noted]
  · rw [sent_append, named_append h.length_noted, List.map_append, List.map_append, h.origins,
      h'.origins]
  · rw [sent_append, announced_append, List.map_append, h.kinds, h'.kinds]
  · rw [attached_append, received_append, List.map_append, h.messages, h'.messages]
  · rw [received_append, awaited_append, List.map_append, h.received_kinds, h'.received_kinds]
  · rw [named_append h.length_noted, announcers_append, List.map_append, h.announcers,
      h'.announcers]
  · rw [attached_append, attachers_append, List.map_append, h.attachers, h'.attachers]
  · intro kind m hm
    exact (List.mem_append.mp hm).elim (h.expected kind m) (h'.expected kind m)

theorem Fulfils.balanced (h : Fulfils ev duty l) : Balanced [(ev, duty)] l := by
  cases h with
  | announce horigin => constructor <;> simp [noted, announcing, sent, named, announced, attached,
      received, awaited, announcers, attachers, horigin]
  | hold => constructor <;> simp [noted, announcing, sent, named, announced, attached, received,
      awaited, announcers, attachers]
  | attach => constructor <;> simp [noted, announcing, sent, named, announced, attached, received,
      awaited, announcers, attachers]

theorem Done.balanced (h : Done duties deeds) : Balanced duties deeds := by
  induction h with
  | nil => exact ⟨rfl, rfl, rfl, rfl, rfl, rfl, rfl, fun _ _ hm => nomatch hm⟩
  | concat _ hfulfils ih => exact ih.append hfulfils.balanced

theorem Done.length_received (h : Done duties deeds) :
    (received deeds).length = (awaited duties).length := by
  rw [← h.balanced.received_kinds, List.length_map]

/-- The deeds do duties in their order, but need not do all of them. -/
structure Ordered (duties : List (ε × Duty κ)) (deeds : List (Deed ε σ κ)) : Prop where
  origins : (sent deeds).map Message.origin <+: (named duties deeds).map Prod.fst
  kinds : (sent deeds).map Message.kind <+: announced duties
  messages : (attached deeds).map (·.2.2) <+: received deeds
  announcers : (named duties deeds).map Prod.snd <+: announcers duties
  attachers : (attached deeds).map (·.2.1) <+: attachers duties
  expected : ∀ kind m, .receive (some kind) m ∈ deeds → m.kind = kind

/-- What was done may be followed by what is in order. -/
theorem Balanced.ordered (h : Balanced duties deeds) (h' : Ordered duties' deeds') :
    Ordered (duties ++ duties') (deeds ++ deeds') := by
  constructor
  · rw [sent_append, named_append h.length_noted, List.map_append, List.map_append, h.origins]
    exact (List.prefix_append_right_inj _).mpr h'.origins
  · rw [sent_append, announced_append, List.map_append, h.kinds]
    exact (List.prefix_append_right_inj _).mpr h'.kinds
  · rw [attached_append, received_append, List.map_append, h.messages]
    exact (List.prefix_append_right_inj _).mpr h'.messages
  · rw [named_append h.length_noted, announcers_append, List.map_append, h.announcers]
    exact (List.prefix_append_right_inj _).mpr h'.announcers
  · rw [attached_append, attachers_append, List.map_append, h.attachers]
    exact (List.prefix_append_right_inj _).mpr h'.attachers
  · intro kind m hm
    exact (List.mem_append.mp hm).elim (h.expected kind m) (h'.expected kind m)

theorem ordered_nil : Ordered duties ([] : List (Deed ε σ κ)) :=
  ⟨List.nil_prefix, List.nil_prefix, List.nil_prefix, List.nil_prefix, List.nil_prefix,
    fun _ _ hm => nomatch hm⟩

theorem Starts.ordered (h : Starts ev duty l) : Ordered ((ev, duty) :: duties) l := by
  cases h with
  | announce => constructor <;> simp [noted, announcing, sent, named, announced, attached,
      received, announcers, attachers]
  | attach => constructor <;> simp [noted, announcing, sent, named, announced, attached,
      received, announcers, attachers]

theorem Conforms.ordered (h : Conforms duties deeds) : Ordered duties deeds := by
  cases h with
  | done hdone => simpa using hdone.balanced.ordered ordered_nil
  | starts hdone hstarts => exact hdone.balanced.ordered hstarts.ordered

/-- A message that comes next has the kind that is needed next, if it was sent by a party
that announces what this one needs. -/
theorem Conforms.next_kind {m : Message σ κ} (h : Conforms duties' deeds')
    (hkinds : awaited duties = announced duties')
    (hsent : received deeds ++ [m] <+: sent deeds') {kind : κ}
    (hnext : (awaited duties)[(received deeds).length]? = some kind) : m.kind = kind := by
  have hall : (received deeds ++ [m]).map Message.kind <+: awaited duties := by
    rw [hkinds]
    exact (hsent.map Message.kind).trans h.ordered.kinds
  obtain ⟨rest, hrest⟩ := hall
  rw [← hrest] at hnext
  simpa using hnext

theorem getElem?_extends {α : Type} {l l' : List α} (h : l <+: l') {k : Nat} {a : α}
    (hk : l[k]? = some a) : l'[k]? = some a := by
  obtain ⟨rest, rfl⟩ := h
  obtain ⟨hlt, -⟩ := List.getElem?_eq_some_iff.mp hk
  rw [List.getElem?_append_left hlt, hk]

/-- What a party attaches to its `k`-th message names the `k`-th item that the other one
announces. -/
theorem Conforms.attached_named (h : Conforms duties deeds) (h' : Conforms duties' deeds')
    (hreceived : received deeds <+: sent deeds') {k : Nat} {item : σ} {m : Message σ κ}
    (hattached : (attached deeds)[k]? = some (item, ev, m)) :
    ∃ ev', (named duties' deeds')[k]? = some (m.origin, ev') := by
  have hmessage : ((attached deeds).map (·.2.2))[k]? = some m := by
    rw [List.getElem?_map, hattached]
    rfl
  have hsent : (sent deeds')[k]? = some m :=
    getElem?_extends hreceived (getElem?_extends h.ordered.messages hmessage)
  have horigin : ((sent deeds').map Message.origin)[k]? = some m.origin := by
    rw [List.getElem?_map, hsent]
    rfl
  have hnamed := getElem?_extends h'.ordered.origins horigin
  rw [List.getElem?_map] at hnamed
  obtain ⟨⟨item', ev'⟩, hitem, horigin'⟩ := Option.map_eq_some_iff.mp hnamed
  obtain rfl : item' = m.origin := horigin'
  exact ⟨ev', hitem⟩

end

end Columbo
