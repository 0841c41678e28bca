import Scriptlet.Call
import Scriptlet.Proofs.Caps.Operations
import Scriptlet.Proofs.Kinds.Functions

/-
  Functions within a cap.

  One lemma for each function that makes a value or changes an object: from values that fit a cap it
  gives a value that fits. Functions that make integers or sizes of their own do so only under a cap
  that admits all of them; they are left open by the others.
-/

namespace Scriptlet

open Run

variable {cap : Cap} {strict : Bool} {limits : Limits} {text : Text} {v w : Value} {levels : Nat}

/-! ## Surroundings -/

namespace Surroundings

theorem stays_print {values : List Value} :
    Stays cap strict text (print limits levels values v) fun _ => True :=
  Follows.lookAny.bind fun _ _ => stays_write limits _

theorem stays_input (hsize : ∀ n, cap.AdmitsSize n) :
    Stays cap strict text (input limits levels v) (Value.Fits cap) :=
  Follows.lookAny.bind fun _ _ => (stays_write limits _).bind fun _ _ => .pure (hsize _)

theorem stays_openFile : Stays cap strict text (openFile levels v w) (Value.Fits cap) :=
  Follows.lookAny.bind fun _ _ => Follows.lookAny.bind fun _ _ => .make fun _ hh => hh.newRecord _

end Surroundings

/-! ## Chance -/

namespace Chance

theorem stays_below (bound : Nat) : Stays cap strict text (below bound) fun _ => True := by
  unfold below
  refine Follows.get.bind fun s hs => ?_
  refine Follows.bind (.modify fun s hs => ⟨hs.vars, hs.heap⟩) fun _ _ => .pure trivial

theorem stays_unit : Stays cap strict text unit (Value.Fits cap) :=
  (stays_below _).bind fun _ _ => stays_newFloat _

theorem stays_between (hint : ∀ n, cap.AdmitsInt n) :
    Stays cap strict text (between v w) (Value.Fits cap) := by
  unfold between
  refine Follows.liftAny.bind fun a _ => Follows.liftAny.bind fun b _ => ?_
  refine .ite (fun _ => (stays_below _).bind fun _ _ => .pure (hint _)) fun _ => ?_
  exact (Follows.mapM fun n _ => Follows.lifted .any).bind fun _ _ => .throw

theorem stays_choice (hcap : cap.IsOf limits) (hv : v.Fits cap) :
    Stays cap true text (choice v) (Value.Fits cap) := by
  refine (Follows.look fun h hh => hh.iterate hcap hv "choice()").bind fun values hvalues => ?_
  refine .ite (fun _ => .throwBind) fun _ => ?_
  refine (stays_below _).bind fun i _ => .pure ?_
  cases hget : values[i]? with
  | none => trivial
  | some v => exact hvalues.each v (List.mem_of_getElem? hget)

/-- What is drawn has been there, and there is no more of it than is asked for. -/
theorem stays_draw {count : Nat} {items : Array Value} {drawn : List Value}
    (hitems : ∀ v ∈ items, v.Fits cap) (hdrawn : ∀ v ∈ drawn, v.Fits cap) :
    Stays cap strict text (draw count items drawn) fun all =>
      all.length ≤ drawn.length + count ∧ ∀ v ∈ all, v.Fits cap := by
  induction count generalizing items drawn with
  | zero => exact .pure ⟨Nat.le_refl _, hdrawn⟩
  | succ count ih =>
    unfold draw
    refine .ite (fun _ => .pure ⟨Nat.le_add_right _ _, hdrawn⟩) fun _ => ?_
    refine (stays_below _).bind fun i _ => ?_
    refine (ih (fun v hv => ?_) (List.forall_mem_cons.mpr ⟨?_, hdrawn⟩)).mono
      fun all hall => ⟨?_, hall.2⟩
    · have hlist := Array.mem_toList_iff.mpr hv
      rw [Array.toList_pop] at hlist
      exact hitems v (mem_swapIfInBounds (Array.mem_toList_iff.mp (List.dropLast_subset _ hlist)))
    · cases hget : items[i]? with
      | none => trivial
      | some v => exact hitems v (Array.mem_of_getElem? hget)
    · have hlength := hall.1
      rw [List.length_cons] at hlength
      omega

/-- As many as are asked for of values that are not fewer. -/
theorem stays_drawn {count : Nat} {items : List Value} (hitems : Value.AllFit cap items)
    (hcount : count ≤ items.length) :
    Stays cap strict text (draw count items.toArray []) (Value.AllFit cap) := by
  refine (stays_draw (fun v hv => hitems.each v (List.mem_toArray.mp hv))
    fun v hv => absurd hv List.not_mem_nil).mono fun drawn ⟨hlength, hdrawn⟩ => ?_
  exact ⟨hitems.size.mono (by rw [List.length_nil] at hlength; omega), hdrawn⟩

theorem stays_shuffle (hv : v.Fits cap) : Stays cap strict text (shuffle v) fun _ => True := by
  unfold shuffle
  cases v with
  | list r =>
    refine Follows.get.bind fun s hs => ?_
    refine (stays_drawn (hs.heap.list r hv) (Nat.le_refl _)).bind fun drawn hdrawn => ?_
    exact .change fun h hh => hh.replaceList r hdrawn
  | _ => exact Follows.liftAny.bind fun _ _ => .throw

theorem stays_sample (hcap : cap.IsOf limits) (hv : v.Fits cap) :
    Stays cap true text (sample v w) (Value.Fits cap) := by
  refine (Follows.look fun h hh => hh.iterate hcap hv "sample()").bind fun values hvalues => ?_
  refine Follows.liftAny.bind fun n _ => .ite (fun _ => .throwBind) fun hn => ?_
  simp only [Bool.or_eq_true, decide_eq_true_eq, not_or] at hn
  exact (stays_drawn hvalues (by omega)).bind fun drawn hdrawn => stays_newList hdrawn

end Chance

/-! ## Building -/

namespace Building

theorem elements_allFit (hcap : cap.IsOf limits) {h : Heap} (hh : h.Fits cap true) (hv : v.Fits cap) :
    Gives (elements h v) (Value.AllFit cap) := by
  unfold elements
  refine Gives.any.bind fun _ _ => .pure ?_
  cases hitems : h.elements? v with
  | none => exact .singleton hcap hv
  | some items => exact hh.elements? hcap hv hitems

theorem stays_float : Stays cap strict text (float v) (Value.Fits cap) := by
  cases v with
  | nan mark => exact .pure trivial
  | _ => exact Follows.liftAny.bind fun _ _ => stays_newFloat _

theorem stays_list (hcap : cap.IsOf limits) (hv : v.Fits cap) :
    Stays cap true text (list v) (Value.Fits cap) :=
  (Follows.look fun _ hh => elements_allFit hcap hh hv).bind fun _ hitems => stays_newList hitems

theorem stays_tuple (hcap : cap.IsOf limits) (hv : v.Fits cap) :
    Stays cap true text (tuple v) (Value.Fits cap) :=
  (Follows.look fun _ hh => elements_allFit hcap hh hv).bind fun _ hitems => stays_newTuple hitems

theorem stays_set (hcap : cap.IsOf limits) (hv : v.Fits cap) :
    Stays cap true text (set v) (Value.Fits cap) := by
  have hmembers : ∀ h : Heap, h.Fits cap true → Gives (do
      h.membersOf (← elements h v) "set()") (Member.AllFit cap) :=
    fun h hh => (elements_allFit hcap hh hv).bind fun _ hitems => Heap.membersOf_allFit _ hitems
  exact (Follows.look hmembers).bind fun _ hm => .make fun _ hh => hh.newSet hm

/-- The entries that a mapping is made of: as many as there are pairs at most. -/
theorem entriesOf_fit {h : Heap} {pairs : List Value} (hh : h.Fits cap strict)
    (hpairs : Value.AllFit cap pairs) :
    Gives (entriesOf h levels pairs) fun entries =>
      entries.size ≤ pairs.length ∧ Entry.AllFit cap entries := by
  refine Entry.gives_allFit fun pair hpair entries hentries => ?_
  refine (hh.unpack levels 2 (hpairs.each pair hpair)).bind fun parts hparts => ?_
  split
  · refine Gives.any.bind fun key _ => .pure ⟨Entry.size_put_le _ _ _ _, ?_⟩
    exact hentries.put (hparts.each _ (by simp)) (hparts.each _ (by simp))
  · exact .pure ⟨Nat.le_succ _, hentries⟩

theorem stays_dict (hcap : cap.IsOf limits) (hv : v.Fits cap) :
    Stays cap true text (dict levels v) (Value.Fits cap) := by
  have hof : ∀ h : Heap, h.Fits cap true → ∀ {pairs}, Value.AllFit cap pairs →
      Gives (entriesOf h levels pairs) fun entries =>
        cap.AdmitsSize entries.size ∧ Entry.AllFit cap entries := by
    intro h hh pairs hpairs entries hentries
    obtain ⟨hsize, hfit⟩ := entriesOf_fit hh hpairs entries hentries
    exact ⟨hpairs.size.mono hsize, hfit⟩
  unfold dict
  refine (Follows.look (fun h hh => ?_ : ∀ h : Heap, h.Fits cap true → Gives _ fun entries =>
    cap.AdmitsSize entries.size ∧ Entry.AllFit cap entries)).bind fun entries ⟨hsize, hentries⟩ =>
      .make fun _ hh => hh.newDict hentries hsize
  refine Gives.any.bind fun _ _ => ?_
  cases v with
  | dict r => exact .pure ⟨hh.dictSize rfl r, hh.dict r⟩
  | list r => exact hof h hh (hh.list r hv)
  | tuple r => exact hof h hh (hh.tuple r)
  | _ => exact .pure ⟨hcap.admitsSize_zero, .empty⟩

theorem codePoint_size (hcap : cap.IsOf limits) :
    Gives (codePoint v) fun t => cap.AdmitsSize t.length := by
  unfold codePoint
  refine Gives.any.bind fun n _ => .ite (fun _ => .throw) fun _ => ?_
  split
  · exact .pure hcap.admitsSize_one
  · exact .throw

end Building

/-! ## Inspection -/

namespace Inspection

theorem stays_setAttribute {value : Value} (hsize : ∀ n, cap.AdmitsSize n) (hw : w.Fits cap)
    (hvalue : value.Fits cap) :
    Stays cap strict text (setAttribute levels v w value) fun _ => True := by
  unfold setAttribute
  refine Follows.get.bind fun s _ => Follows.liftAny.bind fun _ _ => ?_
  cases v with
  | dict r =>
    refine Follows.liftAny.bind fun key _ => ?_
    exact .change fun h hh => hh.putEntry r key hw hvalue fun _ => hsize
  | _ =>
    dsimp only
    split
    · exact .throw
    · exact Follows.liftAny.bind fun _ _ => .throw

end Inspection

/-! ## Mathematics -/

namespace Mathematics

theorem stays_real (f : Float → Float) : Stays cap strict text (real f v) (Value.Fits cap) :=
  Follows.liftAny.bind fun _ _ => Follows.liftAny.bind fun _ _ => stays_newFloat _

theorem stays_exponential : Stays cap strict text (exponential v) (Value.Fits cap) :=
  Follows.liftAny.bind fun _ _ => Follows.liftAny.bind fun _ _ => stays_newFloat _

theorem stays_scaled (factor : Float) : Stays cap strict text (scaled factor v) (Value.Fits cap) :=
  Follows.liftAny.bind fun _ _ => stays_newFloat _

theorem stays_logarithmTo : Stays cap strict text (logarithmTo v w) (Value.Fits cap) := by
  unfold logarithmTo
  refine Follows.liftAny.bind fun x _ => ?_
  cases w with
  | none => exact stays_newFloat x
  | _ =>
    refine Follows.liftAny.bind fun y _ => ?_
    exact (Follows.lift (Number.computeFloats_fits .div x y)).bind fun c hc =>
      Operation.stays_ofComputed hc

end Mathematics

/-! ## Dates and times -/

namespace Clock

theorem stays_now : Stays cap strict text now (Value.Fits cap) :=
  Follows.get.bind fun _ _ => .make fun _ hh => hh.newRecord _

theorem stays_today (hsize : ∀ n, cap.AdmitsSize n) : Stays cap strict text today (Value.Fits cap) :=
  Follows.get.bind fun _ _ => .pure (hsize _)

theorem stays_seconds (hint : ∀ n, cap.AdmitsInt n) :
    Stays cap strict text seconds (Value.Fits cap) :=
  Follows.get.bind fun _ _ => .pure (hint _)

end Clock

/-! ## Numbers -/

namespace Reckoning

theorem stays_extreme {args : List Value} {context : Text} (hcap : cap.IsOf limits) (op : OrderOp)
    (hargs : ∀ v ∈ args, v.Fits cap) :
    Stays cap true text (Run.look fun h => do extreme h op levels (← flattened h args context))
      (Value.Fits cap) :=
  .look fun _ hh =>
    (flattened_holds (fun v hv _ hitems => (hh.elements? hcap (hargs v hv) hitems).each)
      hargs).bind fun _ hvalues => extreme_holds trivial hvalues

/-- Only what is a number passes for one. -/
theorem number_number? (context : Text) : Gives (number v context) fun n => v.number? = some n := by
  intro n hn
  cases v <;> cases hn <;> rfl

theorem number_fits (hcap : cap.IsOf limits) (hv : v.Fits cap) (context : Text) :
    Gives (number v context) (Number.Fits cap) := by
  intro n hn
  exact hv.number? hcap (number_number? context n hn)

theorem stays_absolute (hcap : cap.IsOf limits) (hv : v.Fits cap) :
    Stays cap strict text (absolute v) (Value.Fits cap) :=
  (Follows.lift (number_fits hcap hv "abs()")).bind fun _ hn =>
    Operation.stays_ofNumber (Number.absolute_fits hn)

/-- Where all integers are admitted, all that is computed fits. -/
theorem Computed.fits_of_free (hint : ∀ n, cap.AdmitsInt n) (c : Computed) : c.Fits cap := by
  cases c with
  | int n => exact hint n
  | float _ | complex _ _ => trivial

theorem Number.fits_of_free (hint : ∀ n, cap.AdmitsInt n) (n : Number) : n.Fits cap := by
  cases n with
  | int n => exact hint n
  | float _ => trivial

theorem stays_sum (hint : ∀ n, cap.AdmitsInt n) (hw : w.Fits cap) :
    Stays cap strict text (sum v w) (Value.Fits cap) := by
  unfold sum
  refine Follows.liftAny.bind fun _ _ => ?_
  refine Follows.lookAny.bind fun values _ => Follows.foldlM hw fun u _ total _ => ?_
  refine Follows.liftAny.bind fun n _ => Follows.liftAny.bind fun c _ => ?_
  exact Operation.stays_ofComputed (Computed.fits_of_free hint c)

theorem stays_round (hint : ∀ n, cap.AdmitsInt n) :
    Stays cap strict text (round v w) (Value.Fits cap) := by
  unfold round
  refine Follows.liftAny.bind fun _ _ => Follows.liftAny.bind fun places _ => ?_
  refine Follows.liftAny.bind fun n _ => Follows.liftAny.bind fun factor _ => ?_
  refine Follows.liftAny.bind fun product _ => Follows.liftAny.bind fun shifted _ => ?_
  refine Follows.liftAny.bind fun whole _ => Follows.liftAny.bind fun result _ => ?_
  refine .ite (fun _ => Follows.liftAny.bind fun _ _ => .pure (hint _)) fun _ => ?_
  exact Operation.stays_ofNumber (Number.fits_of_free hint result)

theorem real_fits {c : Computed} (hc : c.Fits cap) : (real c).Fits cap := by
  cases c with
  | int n => exact hc
  | float _ | complex _ _ => trivial

/-- A remainder is no larger than what is divided by. -/
theorem stays_powerRemainder {c : Computed} (hcap : cap.IsOf limits) (hc : c.Fits cap)
    (hv : v.Fits cap) : Stays cap strict text (powerRemainder c v) (Value.Fits cap) := by
  unfold powerRemainder
  refine Follows.liftAny.bind fun _ _ => ?_
  have hrest : ∀ c : Computed, c.Fits cap → Stays cap strict text (do
      Operation.ofNumber (← compute .mod (real c) (← number v "pow()"))) (Value.Fits cap) := by
    intro c hc
    refine (Follows.lift (number_fits hcap hv "pow()")).bind fun n hn => ?_
    have hmod : Gives (compute .mod (real c) n) (Number.Fits cap) := by
      refine (Number.compute_fits hcap (real_fits hc) hn ?_ ?_).bind fun d hd => .pure (real_fits hd)
      · rintro (h | h) <;> cases h
      · rintro (h | h) <;> cases h
    exact (Follows.lift hmod).bind fun d hd => Operation.stays_ofNumber hd
  cases c with
  | int n => exact hrest (.int n) hc
  | float x => exact hrest (.float x) trivial
  | complex re im => exact .throw

theorem powerMod_fits {base exponent modulus : Int} (hmodulus : cap.AdmitsInt modulus) :
    Gives (Number.powerMod base exponent modulus) cap.AdmitsInt := by
  unfold Number.powerMod
  refine .ite (fun _ => .throw) fun hne => .ite (fun _ => .pure ?_) fun _ => ?_
  · exact hmodulus.mono (Integer.natAbs_powMod_le _ _ hne)
  · split
    · exact .pure (hmodulus.mono (Integer.natAbs_powMod_le _ _ hne))
    · exact .throw

theorem requireInteger_fits (hcap : cap.IsOf limits) (hv : v.Fits cap) (context : Text) :
    Gives (v.requireInteger context) cap.AdmitsInt := by
  unfold Value.requireInteger
  refine Gives.any.bind fun _ _ => ?_
  cases hn : v.integer? with
  | none => exact .throw
  | some n => exact .pure (hv.integer? hcap hn)

/-- A power is computed within the limit on bits, and a remainder is no larger than what is divided
by. -/
theorem stays_power {modulus : Value} (hcap : cap.IsOf limits) (hv : v.Fits cap) (hw : w.Fits cap)
    (hmodulus : modulus.Fits cap) :
    Stays cap strict text (power limits v w modulus) (Value.Fits cap) := by
  have hplain : Stays cap strict text (plainPower limits v w modulus) (Value.Fits cap) := by
    refine (Follows.lift (gives_requireBits limits _)).bind fun _ hbits => ?_
    refine (Follows.lift (number_number? "pow()")).bind fun a ha => ?_
    refine (Follows.lift (number_number? "pow()")).bind fun b hb => ?_
    have hpower : Gives (Number.compute .pow a b) (Computed.Fits cap) := by
      refine Number.compute_fits hcap (hv.number? hcap ha) (hw.number? hcap hb) ?_ ?_
      · rintro (h | h) <;> cases h
      · intro _ m n hm hn
        subst hm hn
        rw [Operation.bitEstimate_of_number? ha hb]
        exact hbits
    refine (Follows.lift hpower).bind fun c hc => ?_
    cases modulus with
    | none => exact Operation.stays_ofComputed hc
    | _ => exact stays_powerRemainder hcap hc hmodulus
  unfold power
  refine Follows.liftAny.bind fun _ _ => Follows.liftAny.bind fun _ _ => ?_
  split
  · exact hplain
  · refine (Follows.lift (requireInteger_fits hcap hmodulus "pow()")).bind fun k hk => ?_
    exact (Follows.lift (powerMod_fits hk)).bind fun n hn => .pure hn
  · exact hplain

/-- Quotient and remainder are no larger than what they are made of. -/
theorem divMod_fits {a b : Number} (ha : a.Fits cap) (hb : b.Fits cap) :
    Gives (Number.divMod a b) fun parts => parts.1.Fits cap ∧ parts.2.Fits cap := by
  unfold Number.divMod
  split
  · rename_i m n
    refine .ite (fun _ => .throw) fun hne => .pure ⟨?_, ?_⟩
    · exact Cap.AdmitsInt.mono ha (Integer.natAbs_fdiv_le m n)
    · exact Cap.AdmitsInt.mono hb (Integer.natAbs_fmod_le m hne)
  · refine Gives.any.bind fun _ _ => Gives.any.bind fun _ _ => ?_
    exact .ite (fun _ => .throw) fun _ => .pure ⟨trivial, trivial⟩

theorem stays_quotientAndRest (hcap : cap.IsOf limits) (hv : v.Fits cap) (hw : w.Fits cap)
    (hpair : cap.AdmitsSize 2) :
    Stays cap strict text (quotientAndRest v w) (Value.Fits cap) := by
  unfold quotientAndRest
  refine (Follows.lift (number_fits hcap hv "divmod()")).bind fun m hm => ?_
  refine (Follows.lift (number_fits hcap hw "divmod()")).bind fun n hn => ?_
  refine (Follows.lift (divMod_fits hm hn)).bind fun parts ⟨hquotient, hrest⟩ => ?_
  refine (Operation.stays_ofNumber hquotient).bind fun a ha => ?_
  refine (Operation.stays_ofNumber hrest).bind fun b hb => stays_newTuple ⟨hpair, ?_⟩
  exact List.forall_mem_cons.mpr ⟨ha, List.forall_mem_singleton.mpr hb⟩

/-- The terms of a range lie between its bounds, and their number is tested. -/
theorem stays_range {args : List Value} (hcap : cap.IsOf limits) (hargs : ∀ v ∈ args, v.Fits cap) :
    Stays cap strict text (range limits args) (Value.Fits cap) := by
  have hterms : ∀ {start stop : Int} (step : Int), cap.AdmitsInt start → cap.AdmitsInt stop →
      Stays cap strict text (do
        if step = 0 then throw (.badValue "range() arg 3 must not be zero")
        let count := rangeCount start stop step
        if count ≥ twoTo 63 then throw (.of .overflow "Python int too large to convert to C ssize_t")
        Run.requireSize limits count
        Run.newList ((progression start step count).map .int)) (Value.Fits cap) := by
    intro start stop step hstart hstop
    refine .ite (fun _ => .throwBind) fun hstep => .ite (fun _ => .throwBind) fun _ => ?_
    refine (Follows.lift (gives_requireSize hcap _)).bind fun _ hsize => stays_newList (.map ?_ ?_)
    · rwa [progression, List.length_map, List.length_range]
    · intro n hn
      obtain ⟨i, hi, rfl⟩ := List.mem_map.mp hn
      have hle := natAbs_progression_le hstep (List.mem_range.mp hi)
      rcases Nat.le_total start.natAbs stop.natAbs with h | h
      · exact hstop.mono (by omega)
      · exact hstart.mono (by omega)
  unfold range
  refine .ite (fun _ => .throwBind) fun _ => ?_
  refine (Follows.mapM fun v hv => Follows.lifted
    (requireInteger_fits hcap (hargs v hv) "range()")).bind fun bounds ⟨_, hbounds⟩ => ?_
  split
  rename_i start stop step hchosen
  have hends : cap.AdmitsInt start ∧ cap.AdmitsInt stop := by
    split at hchosen
    · cases hchosen
      exact ⟨hcap.admitsInt_zero, hbounds _ (by simp)⟩
    · cases hchosen
      exact ⟨hbounds _ (by simp), hbounds _ (by simp)⟩
    · cases hchosen
      exact ⟨hbounds _ (by simp), hbounds _ (by simp)⟩
    · cases hchosen
      exact ⟨hcap.admitsInt_zero, hcap.admitsInt_zero⟩
  exact hterms step hends.1 hends.2

end Reckoning

/-! ## Patterns -/

namespace Searching

theorem stays_record {pattern : Pattern.Whole} {subject : Text} {found : Option Pattern.Found} :
    Stays cap strict text (record pattern subject found) (Value.Fits cap) := by
  cases found with
  | none => exact .pure trivial
  | some found => exact .make fun _ hh => hh.newRecord _

theorem stays_subjects {room : Nat} : Stays cap strict text (subjects room v w) fun _ => True :=
  Follows.liftAny.bind fun _ _ => Follows.lookAny.bind fun _ _ => .pure trivial

theorem stays_search {room : Nat} : Stays cap strict text (search room v w) (Value.Fits cap) :=
  stays_subjects.bind fun _ _ => stays_record

theorem stays_matchStart {room : Nat} : Stays cap strict text (matchStart room v w) (Value.Fits cap) :=
  stays_subjects.bind fun _ _ => stays_record

theorem stays_shown {subject : Array CodePoint} {found : Pattern.Found}
    (hsize : ∀ n, cap.AdmitsSize n) :
    Stays cap strict text (shown subject found) (Value.Fits cap) := by
  unfold shown
  split
  · exact .pure (hsize _)
  · exact .pure (hsize _)
  · exact stays_newTuple (.map (hsize _) fun _ _ => hsize _)

theorem stays_findAll {room : Nat} (hsize : ∀ n, cap.AdmitsSize n) :
    Stays cap strict text (findAll room v w) (Value.Fits cap) :=
  stays_subjects.bind fun _ _ => (Follows.mapM fun _ _ => stays_shown hsize).bind
    fun _ ⟨_, hvalues⟩ => stays_newList ⟨hsize _, hvalues⟩

theorem stays_substitute {room : Nat} {subject : Value} (hsize : ∀ n, cap.AdmitsSize n) :
    Stays cap strict text (substitute room v w subject) (Value.Fits cap) := by
  unfold substitute
  refine Follows.liftAny.bind fun pattern _ => Follows.lookAny.bind fun replacement _ => ?_
  refine Follows.lookAny.bind fun _ _ => ?_
  cases Pattern.parseReplacement pattern replacement with
  | error fault => exact .throw
  | ok parts => exact .pure (hsize _)

theorem groupText_fits (hsize : ∀ n, cap.AdmitsSize n) (subject : Text) (group : Option Group) :
    (groupText subject group).Fits cap := by
  cases group with
  | none => trivial
  | some group => exact hsize _

theorem group_fits {subject : Text} {groups : List (Option Group)} (hsize : ∀ n, cap.AdmitsSize n) :
    Gives (group subject groups v) (Value.Fits cap) :=
  Gives.any.bind fun _ _ => Gives.any.bind fun _ _ => .pure (groupText_fits hsize subject _)

end Searching

end Scriptlet
