import Mathlib.Tactic

/-!
# Linked lists in memory

A list whose elements have an address and a content, and whose contents lie in
a memory with the address of the next element in each and zero in the last.
`findNode` is the loop that looks for the first node that passes a test; over
a linked list it finds what `cut` finds in the list itself.  Both can be told
to look at a few nodes only.
-/

namespace LinkedList

variable {β ν ε : Type}

/-- Among the first `limit` elements, those in front of the first one that
passes the test, this one, and the rest. -/
def cut (test : β → Bool) : ℕ → List β → Option (List β × β × List β)
  | 0, _ => none
  | _ + 1, [] => none
  | limit + 1, b :: rest =>
      if test b then some ([], b, rest)
      else (cut test limit rest).map fun found => (b :: found.1, found.2.1, found.2.2)

theorem cut_eq_some {test : β → Bool} {limit : ℕ} {l before after : List β} {b : β}
    (h : cut test limit l = some (before, b, after)) :
    l = before ++ b :: after ∧ test b = true ∧ ∀ b' ∈ before, test b' = false := by
  induction l generalizing limit before with
  | nil => cases limit <;> cases h
  | cons head rest ih =>
      cases limit with
      | zero => cases h
      | succ limit =>
          unfold cut at h
          split_ifs at h with hhead
          · cases h
            exact ⟨rfl, hhead, by simp⟩
          · obtain ⟨⟨before', b', after'⟩, hcut, hfound⟩ := Option.map_eq_some_iff.mp h
            cases hfound
            obtain ⟨rfl, hb, hbefore⟩ := ih hcut
            exact ⟨rfl, hb, List.forall_mem_cons.mpr ⟨by simpa using hhead, hbefore⟩⟩

/-- Nothing is found in a whole list if nothing passes. -/
theorem cut_eq_none {test : β → Bool} {l : List β} :
    cut test (l.length + 1) l = none ↔ ∀ b ∈ l, test b = false := by
  induction l with
  | nil => simp [cut]
  | cons head rest ih =>
      rw [List.length_cons]
      unfold cut
      split_ifs with hhead
      · simp [hhead]
      · simp [ih, hhead]

/-- The address of the first element, and zero if there is none. -/
def headAddr (addr : β → ℕ) : List β → ℕ
  | [] => 0
  | b :: _ => addr b

theorem headAddr_congr {addr : β → ℕ} {l l' : List β} (h : l.map addr = l'.map addr) :
    headAddr addr l = headAddr addr l' := by
  cases l <;> cases l' <;> simp_all [headAddr]

theorem headAddr_append_of_ne_nil {addr : β → ℕ} {l l' : List β} (hl : l ≠ []) :
    headAddr addr (l ++ l') = headAddr addr l := by
  cases l with
  | nil => exact absurd rfl hl
  | cons b rest => rfl

/-- Every element is in memory, with the address of the next one. -/
def Linked (addr : β → ℕ) (content : β → ℕ → ν) (view : ℕ → ν) : List β → Prop
  | [] => True
  | b :: rest => view (addr b) = content b (headAddr addr rest) ∧ Linked addr content view rest

section

variable {addr : β → ℕ} {content : β → ℕ → ν} {view view' : ℕ → ν}

theorem headAddr_append_cons (before after : List β) (b b' : β) (haddr : addr b' = addr b) :
    headAddr addr (before ++ b' :: after) = headAddr addr (before ++ b :: after) := by
  cases before with
  | nil => exact haddr
  | cons head rest => rfl

theorem Linked.congr {l : List β} (hl : Linked addr content view l)
    (hsame : ∀ b ∈ l, view' (addr b) = view (addr b)) : Linked addr content view' l := by
  induction l with
  | nil => trivial
  | cons b rest ih =>
      have hsplit := List.forall_mem_cons.mp hsame
      exact ⟨hsplit.1.trans hl.1, ih hl.2 hsplit.2⟩

theorem Linked.tail {before after : List β} (hl : Linked addr content view (before ++ after)) :
    Linked addr content view after := by
  induction before with
  | nil => exact hl
  | cons b before ih => exact ih hl.2

theorem Linked.view_eq {before after : List β} {b : β}
    (hl : Linked addr content view (before ++ b :: after)) :
    view (addr b) = content b (headAddr addr after) :=
  hl.tail.1

/-- A change of one element. -/
theorem Linked.set {before after : List β} {b b' : β} (haddr : addr b' = addr b)
    (hl : Linked addr content view (before ++ b :: after))
    (hset : view' (addr b') = content b' (headAddr addr after))
    (hsame : ∀ other ∈ before ++ after, view' (addr other) = view (addr other)) :
    Linked addr content view' (before ++ b' :: after) := by
  induction before with
  | nil => exact ⟨hset, hl.2.congr hsame⟩
  | cons head before ih =>
      have hsplit := List.forall_mem_cons.mp hsame
      refine ⟨?_, ih hl.2 hsplit.2⟩
      rw [hsplit.1, hl.1]
      exact congrArg (content head) (headAddr_append_cons before after b b' haddr).symm

/-- A new element behind the last one. -/
theorem Linked.snoc {l : List β} {b last : β}
    (hl : Linked addr content view (l ++ [b]))
    (hb : view' (addr b) = content b (addr last)) (hlast : view' (addr last) = content last 0)
    (hsame : ∀ other ∈ l, view' (addr other) = view (addr other)) :
    Linked addr content view' (l ++ [b, last]) := by
  induction l with
  | nil => exact ⟨hb, hlast, trivial⟩
  | cons head l ih =>
      have hsplit := List.forall_mem_cons.mp hsame
      refine ⟨?_, ih hl.2 hsplit.2⟩
      rw [hsplit.1, hl.1]
      congr 1
      cases l <;> rfl

end

/-! ## What can be reached -/

/-- The addresses that the links lead to. -/
inductive OnChain (next : ℕ → ℕ) (start : ℕ) : ℕ → Prop
  | start : start ≠ 0 → OnChain next start start
  | next {a : ℕ} : OnChain next start a → next a ≠ 0 → OnChain next start (next a)

theorem OnChain.cons {next : ℕ → ℕ} {a b : ℕ} (ha : a ≠ 0) (hb : OnChain next (next a) b) :
    OnChain next a b := by
  induction hb with
  | start hne => exact (OnChain.start ha).next hne
  | next _ hne ih => exact ih.next hne

section

variable {addr : β → ℕ} {content : β → ℕ → ν} {view : ℕ → ν} {link : ν → ℕ}

theorem Linked.onChain (hlink : ∀ b n, link (content b n) = n) {l : List β}
    (hl : Linked addr content view l) (hne : ∀ b ∈ l, addr b ≠ 0) {b : β} (hb : b ∈ l) :
    OnChain (fun a => link (view a)) (headAddr addr l) (addr b) := by
  induction l with
  | nil => cases hb
  | cons head rest ih =>
      have hsplit := List.forall_mem_cons.mp hne
      rcases List.mem_cons.mp hb with rfl | hrest
      · exact OnChain.start hsplit.1
      · have hnext : link (view (addr head)) = headAddr addr rest := by rw [hl.1, hlink]
        have htail := ih hl.2 hsplit.2 hrest
        rw [← hnext] at htail
        exact OnChain.cons hsplit.1 htail

theorem Linked.of_onChain (hlink : ∀ b n, link (content b n) = n) {l : List β}
    (hl : Linked addr content view l) {a : ℕ}
    (ha : OnChain (fun a => link (view a)) (headAddr addr l) a) :
    ∃ before b after, l = before ++ b :: after ∧ addr b = a := by
  induction ha with
  | start hne =>
      cases l with
      | nil => exact absurd rfl hne
      | cons b rest => exact ⟨[], b, rest, rfl, rfl⟩
  | next _ hne ih =>
      obtain ⟨before, b, after, rfl, rfl⟩ := ih
      rw [hl.view_eq, hlink] at hne ⊢
      cases after with
      | nil => exact absurd rfl hne
      | cons b' after => exact ⟨before ++ [b], b', after, by simp, rfl⟩

end

/-! ## Looking for a node -/

/-- The loop `while (cur) { if (test) ...; if (giveUp) break; cur = next; }`
up to the node that passes, with the nodes it visits.  The index counts the
nodes so far. -/
def findNode (load : ℕ → Except ε ν) (next : ν → ℕ) (test : ℕ → ν → Bool)
    (giveUp : ℕ → Bool) (diverges : ε) : ℕ → ℕ → ℕ → Except ε (Option (ℕ × ν) × List ℕ)
  | 0, _, _ => .error diverges
  | fuel + 1, i, cur =>
      if cur = 0 then .ok (none, [])
      else do
        let node ← load cur
        if test cur node then return (some (cur, node), [cur])
        else if giveUp i then return (none, [cur])
        else
          let (found, visited) ←
            findNode load next test giveUp diverges fuel (i + 1) (next node)
          return (found, cur :: visited)

section

variable {addr : β → ℕ} {content : β → ℕ → ν} {view : ℕ → ν}

/-- What `findNode` returns for a cut of the list. -/
def found (addr : β → ℕ) (content : β → ℕ → ν) (limit : ℕ) (l : List β) :
    Option (List β × β × List β) → Option (ℕ × ν) × List ℕ
  | some (before, b, after) =>
      (some (addr b, content b (headAddr addr after)), (before ++ [b]).map addr)
  | none => (none, (l.take limit).map addr)

theorem findNode_linked {load : ℕ → Except ε ν} {next : ν → ℕ} {test : ℕ → ν → Bool}
    {giveUp : ℕ → Bool} {diverges : ε} {passes : β → Bool}
    (hnext : ∀ b n, next (content b n) = n)
    (htest : ∀ b n, test (addr b) (content b n) = passes b) {l : List β}
    (hload : ∀ b ∈ l, addr b ≠ 0 ∧ load (addr b) = .ok (view (addr b)))
    (hl : Linked addr content view l) {fuel i limit : ℕ} (hfuel : l.length < fuel)
    (hgo : ∀ j, i ≤ j → j < i + limit → giveUp j = false)
    (hstop : limit < l.length → giveUp (i + limit) = true) :
    findNode load next test giveUp diverges fuel i (headAddr addr l) =
      .ok (found addr content (limit + 1) l (cut passes (limit + 1) l)) := by
  induction l generalizing fuel i limit with
  | nil =>
      obtain ⟨fuel, rfl⟩ := Nat.exists_eq_succ_of_ne_zero (Nat.ne_of_gt hfuel)
      simp [findNode, headAddr, cut, found]
  | cons b rest ih =>
      obtain ⟨fuel, rfl⟩ := Nat.exists_eq_succ_of_ne_zero (Nat.ne_of_gt (Nat.zero_lt_of_lt hfuel))
      obtain ⟨⟨hne, hb⟩, hrest⟩ := List.forall_mem_cons.mp hload
      rw [hl.1] at hb
      rw [List.length_cons] at hfuel hstop
      unfold findNode cut
      rw [headAddr, if_neg hne, hb]
      by_cases hpass : passes b = true
      · simp [bind, Except.bind, pure, Except.pure, htest, hpass, found]
      · cases limit with
        | zero =>
            have hlast := hstop (by omega)
            rw [Nat.add_zero] at hlast
            simp [bind, Except.bind, pure, Except.pure, htest, hpass, hlast, cut, found]
        | succ limit =>
            have hmore := hgo i (le_refl i) (by omega)
            have htail := @ih hrest hl.2 fuel (i + 1) limit (by omega)
              (by
                intro j hij hj
                exact hgo j (by omega) (by omega))
              (by
                intro hlong
                rw [Nat.add_assoc, Nat.add_comm 1 limit]
                exact hstop (by omega))
            simp only [bind, Except.bind, pure, Except.pure, htest, hpass, hmore, hnext, htail]
            cases cut passes (limit + 1) rest with
            | none => simp [found]
            | some found' => simp [found]

end

end LinkedList
