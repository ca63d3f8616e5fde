import Mathlib.Data.List.Sort
import Mathlib.Data.List.Perm.Basic
import Mathlib.Order.Defs.LinearOrder
import Mathlib.Tactic.Common

set_option autoImplicit false

namespace Election

universe u v w

variable {P : Type u} {K : Type v} {S : Type w} [LinearOrder K] [LinearOrder S]

-- Members in descending order of their keys; those with equal keys come in any order.
structure Arranged (key : P → K) (members arrangement : List P) : Prop where
  perm : arrangement.Perm members
  sorted : arrangement.Pairwise fun a b => key b ≤ key a

-- What is promised of a sort that need not be stable.
def SortsDown (key : P → K) (sort : List P → List P) : Prop :=
  ∀ members, Arranged key members (sort members)

def insertion (key : P → K) (members : List P) : List P :=
  members.insertionSort fun a b => key b ≤ key a

theorem insertion_sortsDown (key : P → K) : SortsDown key (insertion key) := by
  intro members
  have total : Std.Total fun a b : P => key b ≤ key a := ⟨fun a b => le_total (key b) (key a)⟩
  have trans : IsTrans P fun a b : P => key b ≤ key a := ⟨fun a b c first second => second.trans first⟩
  exact ⟨List.perm_insertionSort _ members, List.pairwise_insertionSort _ members⟩

theorem insertion_sorted (key : P → K) (arrangement : List P)
    (sorted : arrangement.Pairwise fun a b => key b ≤ key a) :
    insertion key arrangement = arrangement := sorted.insertionSort_eq

theorem Arranged.unique {key : P → K} {members first second : List P}
    (here : Arranged key members first) (there : Arranged key members second)
    (untied : ∀ a ∈ members, ∀ b ∈ members, key a = key b → a = b) : first = second := by
  refine List.Perm.eq_of_pairwise ?_ here.sorted there.sorted (here.perm.trans there.perm.symm)
  intro a b inside listed below above
  exact untied a (here.perm.subset inside) b (there.perm.subset listed) (le_antisymm above below)

theorem forall_sort_iff {R : Type*} (key : P → K) (result : List P → R) (members : List P) :
    (∀ sort, SortsDown key sort → ∀ other, other.Perm members →
      result (sort other) = result (sort members)) ↔
    ∀ first second, Arranged key members first → Arranged key members second →
      result first = result second := by
  constructor
  · intro free first second here there
    have moved (arrangement : List P) (arranged : Arranged key members arrangement) :
        result arrangement = result (insertion key members) := by
      have same := free (insertion key) (insertion_sortsDown key) arrangement arranged.perm
      rwa [insertion_sorted key arrangement arranged.sorted] at same
    rw [moved first here, moved second there]
  · intro agree sort sorts other perm
    exact agree _ _ ⟨(sorts other).perm.trans perm, (sorts other).sorted⟩ (sorts members)

theorem exists_perm_filter_map {M : Type*} (chosen : M → Bool) (entry : M → P) (all : List M)
    (other : List P) (perm : other.Perm ((all.filter chosen).map entry)) :
    ∃ moved : List M, moved.Perm all ∧ (moved.filter chosen).map entry = other := by
  have comp : Relation.Comp (· = List.map entry ·) List.Perm other (all.filter chosen) := by
    rw [List.eq_map_comp_perm]
    exact perm
  obtain ⟨front, rfl, front_perm⟩ := comp
  refine ⟨front ++ all.filter fun a => !chosen a, ?_, ?_⟩
  · exact (front_perm.append_right _).trans (List.filter_append_perm chosen all)
  · have kept : front.filter chosen = front := List.filter_eq_self.mpr fun a inside =>
      (List.mem_filter.mp (front_perm.subset inside)).2
    have none_left : (all.filter fun a => !chosen a).filter chosen = [] := by
      rw [List.filter_eq_nil_iff]
      intro a inside
      simpa using (List.mem_filter.mp inside).2
    rw [List.filter_append, kept, none_left, List.append_nil]

theorem forall_sort_entries_iff {M R : Type*} (key : P → K) (chosen : M → Bool) (entry : M → P)
    (result : List P → R) (all : List M) :
    (∀ sort, SortsDown key sort → ∀ moved : List M, moved.Perm all →
      result (sort ((moved.filter chosen).map entry)) =
        result (sort ((all.filter chosen).map entry))) ↔
    ∀ first second, Arranged key ((all.filter chosen).map entry) first →
      Arranged key ((all.filter chosen).map entry) second → result first = result second := by
  rw [← forall_sort_iff]
  refine forall₂_congr fun sort _ => ⟨fun free other perm => ?_, fun free moved perm => ?_⟩
  · obtain ⟨moved, moved_perm, rfl⟩ := exists_perm_filter_map chosen entry all other perm
    exact free moved moved_perm
  · exact free _ ((perm.filter chosen).map entry)

section place

variable (key : P → K)

def place (before : P → Bool) (p : P) (arrangement : List P) : List P :=
  arrangement.filter before ++ p :: arrangement.filter fun a => !before a

theorem place_arranged (before : P → Bool) (p : P) (members rest arrangement : List P)
    (perm : members.Perm (p :: rest)) (arranged : Arranged key rest arrangement)
    (above : ∀ a, before a = true → key p ≤ key a) (below : ∀ a, before a = false → key a ≤ key p) :
    Arranged key members (place before p arrangement) := by
  constructor
  · refine (List.perm_middle.trans (List.Perm.cons p ?_)).trans perm.symm
    exact (List.filter_append_perm before arrangement).trans arranged.perm
  · refine List.pairwise_append.mpr ⟨arranged.sorted.filter _, List.pairwise_cons.mpr ⟨?_, ?_⟩, ?_⟩
    · intro a member
      exact below a (by simpa using (List.mem_filter.mp member).2)
    · exact arranged.sorted.filter _
    · intro a first b second
      have high := above a (List.mem_filter.mp first).2
      rcases List.mem_cons.mp second with rfl | later
      · exact high
      · exact (below b (by simpa using (List.mem_filter.mp later).2)).trans high

def leads (p a : P) : Bool := key p < key a

def follows (p a : P) : Bool := key p ≤ key a

theorem exists_arranged (members : List P) : ∃ arrangement, Arranged key members arrangement :=
  ⟨_, insertion_sortsDown key members⟩

theorem lead_arranged (p : P) (members rest arrangement : List P)
    (perm : members.Perm (p :: rest)) (arranged : Arranged key rest arrangement) :
    Arranged key members (place (leads key p) p arrangement) := by
  refine place_arranged key _ p members rest arrangement perm arranged (fun a first => ?_)
    fun a second => ?_
  · exact le_of_lt (of_decide_eq_true first)
  · exact not_lt.mp (of_decide_eq_false second)

theorem follow_arranged (p : P) (members rest arrangement : List P)
    (perm : members.Perm (p :: rest)) (arranged : Arranged key rest arrangement) :
    Arranged key members (place (follows key p) p arrangement) := by
  refine place_arranged key _ p members rest arrangement perm arranged (fun a first => ?_)
    fun a second => ?_
  · exact of_decide_eq_true first
  · exact le_of_lt (not_le.mp (of_decide_eq_false second))

end place

theorem exists_rest (members : List P) (p : P) (member : p ∈ members) :
    ∃ rest, members.Perm (p :: rest) := by
  obtain ⟨before, after, rfl⟩ := List.append_of_mem member
  exact ⟨before ++ after, List.perm_middle⟩

theorem countP_lt (strong weak : P → Bool) (implies : ∀ a, strong a = true → weak a = true)
    (members : List P) (p : P) (member : p ∈ members) (passes : weak p = true)
    (fails : strong p = false) : members.countP strong < members.countP weak := by
  obtain ⟨rest, perm⟩ := exists_rest members p member
  rw [perm.countP_eq, perm.countP_eq, List.countP_cons, List.countP_cons, passes, fails]
  have mono := List.countP_mono_left (l := rest) fun a _ => implies a
  simp only [Bool.false_eq_true, ↓reduceIte]
  omega

section rank

variable (key : P → K) (named : P → Bool)

theorem rank_place (before : P → Bool) (p : P) (arrangement : List P)
    (here : named p = true) (only : ∀ a ∈ arrangement, named a = false) :
    (place before p arrangement).findIdx? named = some (arrangement.countP before) := by
  have earlier : (arrangement.filter before).findIdx? named = none := by
    rw [List.findIdx?_eq_none_iff]
    exact fun a member => only a (List.mem_of_mem_filter member)
  rw [place, List.findIdx?_append, earlier]
  simp [List.findIdx?_cons, here, List.countP_eq_length_filter]

theorem findIdx_iff (p : P) (here : named p = true) (arrangement : List P)
    (distinct : arrangement.Nodup) (only : ∀ a ∈ arrangement, named a = true → a = p) (i : Nat) :
    arrangement.findIdx? named = some i ↔ arrangement[i]? = some p := by
  induction arrangement generalizing i with
  | nil => simp
  | cons head rest ih =>
      rw [List.nodup_cons] at distinct
      rw [List.findIdx?_cons]
      cases first : named head with
      | true =>
          obtain rfl := only head List.mem_cons_self first
          have outside (j : Nat) : rest[j]? ≠ some head := fun found =>
            distinct.1 (List.mem_of_getElem? found)
          cases i with
          | zero => simp
          | succ j => simp [outside j]
      | false =>
          have apart : head ≠ p := fun same => by
            rw [same, here] at first
            cases first
          have later := ih distinct.2 fun a inside => only a (List.mem_cons_of_mem head inside)
          cases i with
          | zero => simp [apart]
          | succ j => simp [later j]

theorem rank_unique (p : P) (here : named p = true) (members arrangement : List P)
    (distinct : members.Nodup) (member : p ∈ members) (only : ∀ a ∈ members, named a = true → a = p)
    (alone : ∀ a ∈ members, key a = key p → a = p) (arranged : Arranged key members arrangement) :
    arrangement.findIdx? named = some (members.countP (leads key p)) := by
  rw [← arranged.perm.countP_eq]
  have distinct := arranged.perm.nodup_iff.mpr distinct
  have inside : ∀ a ∈ arrangement, a ∈ members := fun a member => arranged.perm.subset member
  have member : p ∈ arrangement := arranged.perm.symm.subset member
  have sorted := arranged.sorted
  clear arranged
  induction arrangement with
  | nil => cases member
  | cons head rest ih =>
      rw [List.findIdx?_cons]
      rw [List.pairwise_cons] at sorted
      rw [List.nodup_cons] at distinct
      by_cases first : head = p
      · subst first
        have none_above : rest.countP (leads key head) = 0 := by
          rw [List.countP_eq_zero]
          intro a later above
          exact absurd (of_decide_eq_true above) (not_lt.mpr (sorted.1 a later))
        simp [here, none_above, leads]
      · have later : p ∈ rest := (List.mem_cons.mp member).resolve_left (Ne.symm first)
        have unnamed : named head = false :=
          Bool.not_eq_true _ ▸ fun isNamed => first (only head (inside head List.mem_cons_self) isNamed)
        have above : leads key p head = true := by
          refine decide_eq_true (lt_of_le_of_ne (sorted.1 p later) fun same => ?_)
          exact first (alone head (inside head List.mem_cons_self) same.symm)
        rw [unnamed, ih distinct.2 (fun a in_rest => inside a (List.mem_cons_of_mem head in_rest)) later
          sorted.2, List.countP_cons, above]
        rfl

theorem rank_free_iff (members : List P) (distinct : members.Nodup)
    (unique : ∀ a ∈ members, ∀ b ∈ members, named a = true → named b = true → a = b) :
    (∀ first second, Arranged key members first → Arranged key members second →
      first.findIdx? named = second.findIdx? named) ↔
    ∀ p ∈ members, named p = true → ∀ a ∈ members, key a = key p → a = p := by
  constructor
  · intro agree p member here a other tie
    by_contra apart
    obtain ⟨rest, perm⟩ := exists_rest members p member
    obtain ⟨arrangement, arranged⟩ := exists_arranged key rest
    have fresh : p ∉ rest := (List.nodup_cons.mp (perm.nodup_iff.mp distinct)).1
    have only : ∀ b ∈ arrangement, named b = false := by
      intro b inside
      have in_rest := arranged.perm.subset inside
      refine Bool.not_eq_true _ ▸ fun isNamed => fresh ?_
      have known := perm.symm.subset (List.mem_cons_of_mem p in_rest)
      exact unique p member b known here isNamed ▸ in_rest
    have present : a ∈ arrangement := by
      have inside := (List.mem_cons.mp (perm.subset other)).resolve_left apart
      exact arranged.perm.symm.subset inside
    have same := agree _ _ (lead_arranged key p members rest arrangement perm arranged)
      (follow_arranged key p members rest arrangement perm arranged)
    rw [rank_place named _ p arrangement here only, rank_place named _ p arrangement here only,
      Option.some.injEq] at same
    refine absurd same (ne_of_lt (countP_lt _ _ ?_ arrangement a present ?_ ?_))
    · exact fun b first => decide_eq_true (le_of_lt (of_decide_eq_true first))
    · exact decide_eq_true (le_of_eq tie.symm)
    · exact decide_eq_false (not_lt.mpr (le_of_eq tie))
  · intro alone first second arranged arranged'
    by_cases present : ∃ p ∈ members, named p = true
    · obtain ⟨p, member, here⟩ := present
      have only : ∀ a ∈ members, named a = true → a = p := fun a inside isNamed =>
        unique a inside p member isNamed here
      rw [rank_unique key named p here members first distinct member only (alone p member here) arranged,
        rank_unique key named p here members second distinct member only (alone p member here) arranged']
    · have absent (arrangement : List P) (arranged : Arranged key members arrangement) :
          arrangement.findIdx? named = none := by
        rw [List.findIdx?_eq_none_iff]
        intro a inside
        exact Bool.not_eq_true _ ▸ fun isNamed => present ⟨a, arranged.perm.subset inside, isNamed⟩
      rw [absent first arranged, absent second arranged']

end rank

section best

variable (score : P → S)

def best (high : S) (winner : Option P) : List P → Option P
  | [] => winner
  | p :: rest => if high < score p then best (score p) (some p) rest else best high winner rest

structure Wins (high : S) (before : List P) (p : P) (after : List P) : Prop where
  above : high < score p
  first : ∀ a ∈ before, score a < score p
  greatest : ∀ a ∈ after, score a ≤ score p

theorem best_wins (high : S) (winner : Option P) (before : List P) (p : P) (after : List P)
    (wins : Wins score high before p after) :
    best score high winner (before ++ p :: after) = some p := by
  induction before generalizing high winner with
  | nil =>
      have kept : ∀ rest, (∀ a ∈ rest, score a ≤ score p) → best score (score p) (some p) rest = some p := by
        intro rest low
        induction rest with
        | nil => rfl
        | cons a rest ih =>
            have here := low a List.mem_cons_self
            rw [best, if_neg (not_lt.mpr here)]
            exact ih fun b member => low b (List.mem_cons_of_mem a member)
      rw [List.nil_append, best, if_pos wins.above]
      exact kept after wins.greatest
  | cons a rest ih =>
      have here := wins.first a List.mem_cons_self
      have later : ∀ b ∈ rest, score b < score p := fun b member =>
        wins.first b (List.mem_cons_of_mem a member)
      rw [List.cons_append, best]
      split
      next => exact ih _ _ ⟨here, later, wins.greatest⟩
      next => exact ih _ _ ⟨wins.above, later, wins.greatest⟩

theorem best_cases (high : S) (winner : Option P) (members : List P) :
    (best score high winner members = winner ∧ ∀ a ∈ members, score a ≤ high) ∨
      ∃ before p after, members = before ++ p :: after ∧ Wins score high before p after ∧
        best score high winner members = some p := by
  induction members generalizing high winner with
  | nil => exact .inl ⟨rfl, by simp⟩
  | cons a rest ih =>
      rw [best]
      split
      next above =>
        rcases ih (score a) (some a) with ⟨same, low⟩ | ⟨before, p, after, rfl, wins, won⟩
        · exact .inr ⟨[], a, rest, rfl, ⟨above, by simp, low⟩, same⟩
        · refine .inr ⟨a :: before, p, after, rfl, ⟨above.trans wins.above, ?_, wins.greatest⟩, won⟩
          exact List.forall_mem_cons.mpr ⟨wins.above, wins.first⟩
      next below =>
        have here := not_lt.mp below
        rcases ih high winner with ⟨same, low⟩ | ⟨before, p, after, rfl, wins, won⟩
        · exact .inl ⟨same, List.forall_mem_cons.mpr ⟨here, low⟩⟩
        · refine .inr ⟨a :: before, p, after, rfl, ⟨wins.above, ?_, wins.greatest⟩, won⟩
          exact List.forall_mem_cons.mpr ⟨here.trans_lt wins.above, wins.first⟩

theorem best_low (high : S) (winner : Option P) (members : List P)
    (low : ∀ a ∈ members, score a ≤ high) : best score high winner members = winner := by
  rcases best_cases score high winner members with ⟨same, _⟩ | ⟨before, p, after, rfl, wins, _⟩
  · exact same
  · exact absurd (low p (by simp)) (not_le.mpr wins.above)

theorem Wins.le {high : S} {before : List P} {p : P} {after : List P}
    (wins : Wins score high before p after) (a : P) (member : a ∈ before ++ p :: after) :
    score a ≤ score p := by
  simp only [List.mem_append, List.mem_cons] at member
  rcases member with first | rfl | later
  · exact le_of_lt (wins.first a first)
  · exact le_rfl
  · exact wins.greatest a later

def Top (high : S) (members : List P) (p : P) : Prop :=
  high < score p ∧ ∀ a ∈ members, score a ≤ score p

theorem best_free_iff (high : S) (members : List P) :
    (∀ other, other.Perm members → best score high none other = best score high none members) ↔
      ∀ a ∈ members, ∀ b ∈ members, Top score high members a → Top score high members b → a = b := by
  constructor
  · intro free a first b second top top'
    have moved (p : P) (member : p ∈ members) (isTop : Top score high members p) :
        best score high none members = some p := by
      obtain ⟨rest, perm⟩ := exists_rest members p member
      rw [← free _ perm.symm]
      refine best_wins score high none [] p rest ⟨isTop.1, by simp, fun a inside => ?_⟩
      exact isTop.2 a (perm.symm.subset (List.mem_cons_of_mem p inside))
    exact Option.some.inj ((moved a first top).symm.trans (moved b second top'))
  · intro unique other perm
    rcases best_cases score high none members with ⟨same, low⟩ | ⟨before, p, after, split, wins, won⟩
    · rw [same, best_low score high none other fun a inside => low a (perm.subset inside)]
    · have top : Top score high members p := ⟨wins.above, fun a inside => wins.le score a (split ▸ inside)⟩
      have member : p ∈ members := by simp [split]
      rcases best_cases score high none other with ⟨_, low⟩ | ⟨before', q, after', split', wins', won'⟩
      · exact absurd (low p (perm.symm.subset member)) (not_le.mpr top.1)
      · have top' : Top score high members q :=
          ⟨wins'.above, fun a inside => wins'.le score a (split' ▸ perm.symm.subset inside)⟩
        have member' : q ∈ members := perm.subset (by simp [split'])
        rw [won, won', unique p member q member' top top']

end best

section quota

variable (key : P → K) (members : List P) (quota : Nat)

-- The first places go to the member's whole class of equal keys, or to a part of it only.
def Sure (p : P) : Prop := members.countP (follows key p) ≤ quota

def Contested (p : P) : Prop :=
  members.countP (leads key p) < quota ∧ quota < members.countP (follows key p)

theorem follows_self (p : P) : follows key p p = true := decide_eq_true le_rfl

theorem leads_self (p : P) : leads key p p = false := decide_eq_false (lt_irrefl _)

theorem leads_follows (p a : P) (leads : leads key p a = true) : follows key p a = true :=
  decide_eq_true (le_of_lt (of_decide_eq_true leads))

variable {key members quota}

theorem Sure.mono {p a : P} (sure : Sure key members quota p) (above : key p ≤ key a) :
    Sure key members quota a := by
  refine le_trans (List.countP_mono_left fun b _ follows => ?_) sure
  exact decide_eq_true (above.trans (of_decide_eq_true follows))

theorem Contested.below {m a : P} (contested : Contested key members quota m)
    (sure : Sure key members quota a) : key m < key a := by
  by_contra above
  exact absurd (sure.mono (not_lt.mp above)) (not_le.mpr contested.2)

variable {arrangement : List P} (arranged : Arranged key members arrangement)

include arranged

theorem placed_of_mem_take (p : P) (member : p ∈ arrangement.take quota) :
    Sure key members quota p ∨ Contested key members quota p := by
  rcases Nat.lt_or_ge quota (members.countP (follows key p)) with cut | fits
  · refine .inr ⟨?_, cut⟩
    obtain ⟨before, after, split⟩ := List.append_of_mem member
    have whole : arrangement = before ++ p :: (after ++ arrangement.drop quota) := by
      rw [← List.cons_append, ← List.append_assoc, ← split, List.take_append_drop]
    have sorted := arranged.sorted
    rw [whole, List.pairwise_append, List.pairwise_cons] at sorted
    have behind : (p :: (after ++ arrangement.drop quota)).countP (leads key p) = 0 := by
      rw [List.countP_eq_zero]
      intro a inside leads
      have above : key p < key a := of_decide_eq_true leads
      rcases List.mem_cons.mp inside with rfl | later
      · exact absurd above (lt_irrefl _)
      · exact absurd above (not_lt.mpr (sorted.2.1.1 a later))
    have length : before.length + 1 ≤ quota := by
      have short := List.length_take_le quota arrangement
      rw [split, List.length_append, List.length_cons] at short
      omega
    have counted := List.countP_le_length (p := leads key p) (l := before)
    rw [← arranged.perm.countP_eq, whole, List.countP_append, behind]
    omega
  · exact .inl fits

theorem mem_take_of_sure (p : P) (member : p ∈ members) (sure : Sure key members quota p) :
    p ∈ arrangement.take quota := by
  have inside : p ∈ arrangement := arranged.perm.symm.subset member
  rw [← List.take_append_drop quota arrangement] at inside
  refine (List.mem_append.mp inside).resolve_right fun behind => ?_
  have sorted := arranged.sorted
  rw [← List.take_append_drop quota arrangement, List.pairwise_append] at sorted
  have full : (arrangement.take quota).length = quota := by
    have nonEmpty := List.length_pos_of_mem behind
    rw [List.length_drop] at nonEmpty
    rw [List.length_take]
    omega
  have all : (arrangement.take quota).countP (follows key p) = quota := by
    refine (List.countP_eq_length.mpr fun a inside => ?_).trans full
    exact decide_eq_true (sorted.2.2 a inside p behind)
  have one : 0 < (arrangement.drop quota).countP (follows key p) :=
    List.countP_pos_iff.mpr ⟨p, behind, follows_self key p⟩
  have counted : members.countP (follows key p) =
      (arrangement.take quota).countP (follows key p) +
        (arrangement.drop quota).countP (follows key p) := by
    rw [← List.countP_append, List.take_append_drop, arranged.perm.countP_eq]
  have bound : members.countP (follows key p) ≤ quota := sure
  omega

end quota

section settled

variable (key : P → K) (score : P → S) (high : S) (members : List P) (quota : Nat)

structure SureTop (p : P) : Prop where
  sure : Sure key members quota p
  above : high < score p
  greatest : ∀ a ∈ members, Sure key members quota a →
    score a < score p ∨ score a = score p ∧ key a ≤ key p

/-- The best of the first members of an arrangement is the same for all arrangements: a member
whose place is contested cannot win, and one of the sure members is the best alone. -/
structure Settled : Prop where
  contested : ∀ m ∈ members, Contested key members quota m →
    score m ≤ high ∨ ∃ a ∈ members, Sure key members quota a ∧ score m ≤ score a
  unique : ∀ a ∈ members, ∀ b ∈ members, SureTop key score high members quota a →
    SureTop key score high members quota b → a = b

variable {key score high members quota}

theorem SureTop.le {p : P} (top : SureTop key score high members quota p) (a : P)
    (member : a ∈ members) (sure : Sure key members quota a) : score a ≤ score p := by
  rcases top.greatest a member sure with below | ⟨same, _⟩
  · exact le_of_lt below
  · exact le_of_eq same

theorem exists_sureTop (p : P) (member : p ∈ members) (sure : Sure key members quota p)
    (above : high < score p) : ∃ w ∈ members, SureTop key score high members quota w := by
  classical
  obtain ⟨arrangement, arranged⟩ :=
    exists_arranged key (members.filter fun a => decide (Sure key members quota a))
  have inside (a : P) : a ∈ arrangement ↔ a ∈ members ∧ Sure key members quota a := by
    rw [arranged.perm.mem_iff, List.mem_filter, decide_eq_true_eq]
  rcases best_cases score high none arrangement with ⟨_, low⟩ | ⟨before, w, after, split, wins, _⟩
  · exact absurd (low p ((inside p).mpr ⟨member, sure⟩)) (not_le.mpr above)
  · have known := (inside w).mp (by simp [split])
    refine ⟨w, known.1, known.2, wins.above, fun a a_member a_sure => ?_⟩
    have listed := (inside a).mpr ⟨a_member, a_sure⟩
    have sorted := arranged.sorted
    rw [split, List.pairwise_append, List.pairwise_cons] at sorted
    rw [split] at listed
    simp only [List.mem_append, List.mem_cons] at listed
    rcases listed with first | rfl | later
    · exact .inl (wins.first a first)
    · exact .inr ⟨rfl, le_rfl⟩
    · exact (lt_or_eq_of_le (wins.greatest a later)).imp_right fun same => ⟨same, sorted.2.1.1 a later⟩

theorem Settled.wins (settled : Settled key score high members quota) (distinct : members.Nodup)
    (w : P) (member : w ∈ members) (top : SureTop key score high members quota w)
    (arrangement : List P) (arranged : Arranged key members arrangement) :
    best score high none (arrangement.take quota) = some w := by
  have placed : ∀ a ∈ arrangement.take quota,
      Sure key members quota a ∨ Contested key members quota a := placed_of_mem_take arranged
  have taken := mem_take_of_sure arranged w member top.sure
  obtain ⟨before, after, split⟩ := List.append_of_mem taken
  have known (a : P) (inside : a ∈ before ++ w :: after) : a ∈ members :=
    arranged.perm.subset (List.mem_of_mem_take (split ▸ inside))
  have le (a : P) (inside : a ∈ before ++ w :: after) : score a ≤ score w := by
    rcases placed a (split ▸ inside) with sure | contested
    · exact top.le a (known a inside) sure
    · rcases settled.contested a (known a inside) contested with low | ⟨b, b_member, sure, below⟩
      · exact low.trans (le_of_lt top.above)
      · exact below.trans (top.le b b_member sure)
  have sorted : (before ++ w :: after).Pairwise fun a b => key b ≤ key a :=
    split ▸ arranged.sorted.sublist (List.take_sublist _ _)
  have nodup : (before ++ w :: after).Nodup :=
    split ▸ (arranged.perm.nodup_iff.mpr distinct).sublist (List.take_sublist _ _)
  rw [List.pairwise_append] at sorted
  rw [split]
  refine best_wins score high none before w after ⟨top.above, fun a first => ?_, fun a later => ?_⟩
  · have inside : a ∈ before ++ w :: after := List.mem_append_left _ first
    refine lt_of_le_of_ne (le a inside) fun same => ?_
    have key_above : key w ≤ key a := sorted.2.2 a first w List.mem_cons_self
    have sure : Sure key members quota a := top.sure.mono key_above
    have same_key : key a = key w := by
      refine le_antisymm ?_ key_above
      exact ((top.greatest a (known a inside) sure).resolve_left (by simp [same])).2
    -- a member before the winner with its score and its key would be a second best one
    have second : SureTop key score high members quota a :=
      ⟨sure, same ▸ top.above, fun b b_member b_sure => by
        rw [same, same_key]
        exact top.greatest b b_member b_sure⟩
    have equal := settled.unique a (known a inside) w member second top
    rw [equal] at first
    exact (List.nodup_append.mp nodup).2.2 w first w List.mem_cons_self rfl
  · exact le a (List.mem_append_right _ (List.mem_cons_of_mem w later))

theorem Settled.agree (settled : Settled key score high members quota) (distinct : members.Nodup)
    (first second : List P) (here : Arranged key members first)
    (there : Arranged key members second) :
    best score high none (first.take quota) = best score high none (second.take quota) := by
  by_cases winner : ∃ w ∈ members, SureTop key score high members quota w
  · obtain ⟨w, member, top⟩ := winner
    rw [settled.wins distinct w member top first here, settled.wins distinct w member top second there]
  · have low : ∀ a ∈ members, Sure key members quota a → score a ≤ high := fun a member sure =>
      not_lt.mp fun above => winner (exists_sureTop a member sure above)
    have nobody (arrangement : List P) (arranged : Arranged key members arrangement) :
        best score high none (arrangement.take quota) = none := by
      refine best_low score high none _ fun a inside => ?_
      have member := arranged.perm.subset (List.mem_of_mem_take inside)
      rcases placed_of_mem_take arranged a inside with sure | contested
      · exact low a member sure
      · rcases settled.contested a member contested with bound | ⟨b, b_member, sure, below⟩
        · exact bound
        · exact below.trans (low b b_member sure)
    rw [nobody first here, nobody second there]

theorem take_place (before : P → Bool) (p : P) (arrangement : List P)
    (short : arrangement.countP before < quota) :
    (place before p arrangement).take quota =
      arrangement.filter before ++
        p :: (arrangement.filter fun a => !before a).take (quota - arrangement.countP before - 1) := by
  have rest : quota - arrangement.countP before = quota - arrangement.countP before - 1 + 1 := by omega
  rw [place, List.take_append, ← List.countP_eq_length_filter, List.take_of_length_le (by
    rw [← List.countP_eq_length_filter]
    exact le_of_lt short), rest, List.take_succ_cons]
  rfl

theorem Contested.left_out (distinct : members.Nodup) (m : P) (member : m ∈ members)
    (contested : Contested key members quota m) :
    ∃ arrangement, Arranged key members arrangement ∧ m ∉ arrangement.take quota := by
  obtain ⟨rest, perm⟩ := exists_rest members m member
  obtain ⟨arrangement, arranged⟩ := exists_arranged key rest
  have placed := follow_arranged key m members rest arrangement perm arranged
  refine ⟨_, placed, fun taken => ?_⟩
  have counted : members.countP (follows key m) = arrangement.countP (follows key m) + 1 := by
    rw [perm.countP_eq, List.countP_cons, follows_self, if_pos rfl, arranged.perm.countP_eq]
  have long : quota ≤ (arrangement.filter (follows key m)).length := by
    rw [← List.countP_eq_length_filter]
    have cut := contested.2
    omega
  rw [place, List.take_append_of_le_length long] at taken
  have nodup := placed.perm.nodup_iff.mpr distinct
  rw [place, List.nodup_append] at nodup
  exact nodup.2.2 m (List.mem_of_mem_take taken) m List.mem_cons_self rfl

theorem lead_taken (m : P) (member : m ∈ members)
    (short : members.countP (leads key m) < quota) :
    ∃ front back, Arranged key members (front ++ m :: back) ∧ (∀ a ∈ front, key m < key a) ∧
      ∃ taken, (front ++ m :: back).take quota = front ++ m :: taken := by
  obtain ⟨rest, perm⟩ := exists_rest members m member
  obtain ⟨arrangement, arranged⟩ := exists_arranged key rest
  have counted : arrangement.countP (leads key m) < quota := by
    rwa [perm.countP_eq, List.countP_cons, leads_self, if_neg Bool.false_ne_true, Nat.add_zero,
      ← arranged.perm.countP_eq] at short
  refine ⟨_, _, lead_arranged key m members rest arrangement perm arranged, fun a first => ?_, _,
    take_place (leads key m) m arrangement counted⟩
  exact of_decide_eq_true (List.mem_filter.mp first).2

theorem settled_of_agree (distinct : members.Nodup)
    (agree : ∀ first second, Arranged key members first → Arranged key members second →
      best score high none (first.take quota) = best score high none (second.take quota)) :
    Settled key score high members quota := by
  have bounded : ∀ m ∈ members, Contested key members quota m →
      score m ≤ high ∨ ∃ a ∈ members, Sure key members quota a ∧ score m ≤ score a := by
    intro m member contested
    by_contra beats
    rw [not_or, not_le, not_exists] at beats
    -- then the winner of an arrangement that takes m is contested, and another leaves it out
    obtain ⟨front, back, arranged, _, taken, took⟩ := lead_taken m member contested.1
    have listed : m ∈ (front ++ m :: back).take quota := by simp [took]
    rcases best_cases score high none ((front ++ m :: back).take quota) with
      ⟨_, low⟩ | ⟨before, w, after, split, wins, won⟩
    · exact absurd (low m listed) (not_le.mpr beats.1)
    · have above := wins.le score m (split ▸ listed)
      have in_take : w ∈ (front ++ m :: back).take quota := by simp [split]
      have known := arranged.perm.subset (List.mem_of_mem_take in_take)
      rcases placed_of_mem_take arranged w in_take with sure | cut
      · exact beats.2 w ⟨known, sure, above⟩
      · obtain ⟨other, there, missing⟩ := cut.left_out distinct w known
        have same := agree _ _ arranged there
        rw [won] at same
        rcases best_cases score high none (other.take quota) with ⟨none_won, _⟩ | ⟨_, v, _, split', _, won'⟩
        · rw [none_won] at same
          cases same
        · rw [won'] at same
          cases same
          exact missing (by simp [split'])
  refine ⟨bounded, fun a a_member b b_member top top' => ?_⟩
  have winner (p : P) (member : p ∈ members) (isTop : SureTop key score high members quota p) :
      ∃ arrangement, Arranged key members arrangement ∧
        best score high none (arrangement.take quota) = some p := by
    have short : members.countP (leads key p) < quota :=
      (countP_lt (leads key p) (follows key p) (leads_follows key p) members p member
        (follows_self key p) (leads_self key p)).trans_le isTop.sure
    obtain ⟨front, back, arranged, ahead, taken, took⟩ := lead_taken p member short
    refine ⟨_, arranged, ?_⟩
    rw [took]
    refine best_wins score high none front p taken ⟨isTop.above, fun c first => ?_, fun c later => ?_⟩
    · have known := arranged.perm.subset (List.mem_append_left _ first)
      have sure := isTop.sure.mono (le_of_lt (ahead c first))
      refine (isTop.greatest c known sure).resolve_right fun equal => ?_
      exact absurd (ahead c first) (not_lt.mpr equal.2)
    · have in_take : c ∈ (front ++ p :: back).take quota := by
        rw [took]
        exact List.mem_append_right _ (List.mem_cons_of_mem p later)
      have known := arranged.perm.subset (List.mem_of_mem_take in_take)
      rcases placed_of_mem_take arranged c in_take with sure | cut
      · exact isTop.le c known sure
      · rcases bounded c known cut with low | ⟨d, d_member, sure, below⟩
        · exact low.trans (le_of_lt isTop.above)
        · exact below.trans (isTop.le d d_member sure)
  obtain ⟨first, here, won⟩ := winner a a_member top
  obtain ⟨second, there, won'⟩ := winner b b_member top'
  have same := agree first second here there
  rw [won, won'] at same
  exact Option.some.inj same

theorem best_take_iff (distinct : members.Nodup) :
    (∀ first second, Arranged key members first → Arranged key members second →
      best score high none (first.take quota) = best score high none (second.take quota)) ↔
    Settled key score high members quota :=
  ⟨settled_of_agree distinct, fun settled first second => settled.agree distinct first second⟩

end settled

end Election
