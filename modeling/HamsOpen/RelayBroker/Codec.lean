import HamsOpen.RelayBroker.Wire

/-!
# What is read of a message

A body is read as a message when it is the encoding of that message, and of a message whose strings
and lists are within their bounds. A message has the encoding of the message that it is cut to.
-/

namespace HamsOpen.RelayBroker

open Reader (item take lift times)

/-! ### Fields -/

theorem be16_length (v : UInt16) : (be16 v).length = 2 := rfl

theorem ofBe16_eq_ok {bs : List UInt8} {v : UInt16} : ofBe16 bs = .ok v ↔ bs = be16 v := by
  constructor
  · intro h
    unfold ofBe16 at h
    split at h
    next hi lo =>
      cases h
      have hhi := hi.toNat_lt
      have hlo := lo.toNat_lt
      have hv : (UInt16.ofNat (hi.toNat * 256 + lo.toNat)).toNat = hi.toNat * 256 + lo.toNat := by
        rw [UInt16.toNat_ofNat']
        exact Nat.mod_eq_of_lt (by omega)
      unfold be16
      rw [hv]
      congr 1
      · rw [← UInt8.toNat_inj, UInt8.toNat_ofNat']
        omega
      · congr 1
        rw [← UInt8.toNat_inj, UInt8.toNat_ofNat']
        omega
    next => cases h
  · rintro rfl
    have hv := v.toNat_lt
    apply congrArg Except.ok
    rw [← UInt16.toNat_inj, UInt16.toNat_ofNat', UInt8.toNat_ofNat', UInt8.toNat_ofNat']
    omega

theorem u8_reads : u8.Reads fun b bs => bs = [b] := .item _

theorem u16_reads : u16.Reads fun v bs => bs = be16 v := by
  apply ((Reader.Reads.take _ 2).bind fun b _ _ => .lift (ofBe16 b)).congr
  intro v bs
  constructor
  · rintro rfl
    exact ⟨be16 v, be16 v, [], ⟨rfl, rfl⟩, ⟨ofBe16_eq_ok.mpr rfl, rfl⟩, (List.append_nil _).symm⟩
  · rintro ⟨b, _, _, ⟨rfl, -⟩, ⟨hv, rfl⟩, rfl⟩
    rw [List.append_nil]
    exact ofBe16_eq_ok.mp hv

/-- A byte that stands for a value is that value's code. -/
theorem coded_reads {α : Type} {ofTag : UInt8 → Except WireError α} {code : α → UInt8}
    (h : ∀ tag a, ofTag tag = .ok a ↔ code a = tag) :
    (coded ofTag).Reads fun a bs => bs = [code a] := by
  apply (u8_reads.bind fun tag _ _ => .lift (ofTag tag)).congr
  intro a bs
  constructor
  · rintro rfl
    exact ⟨code a, _, [], rfl, ⟨(h _ a).mpr rfl, rfl⟩, rfl⟩
  · rintro ⟨tag, _, _, rfl, ⟨ha, rfl⟩, rfl⟩
    rw [(h tag a).mp ha]
    rfl

theorem deviceClassFromTag_eq_ok (tag : UInt8) (c : DeviceClass) :
    deviceClassFromTag tag = .ok c ↔ c.code = tag := by
  constructor
  · intro h
    unfold deviceClassFromTag at h
    split at h <;> cases h <;> rfl
  · rintro rfl
    cases c <;> rfl

theorem boolOf_eq_ok (tag : UInt8) (b : Bool) : boolOf tag = .ok b ↔ boolCode b = tag := by
  constructor
  · intro h
    unfold boolOf at h
    split at h <;> cases h <;> rfl
  · rintro rfl
    cases b <;> rfl

theorem groupFromTag_eq_ok (tag : UInt8) (g : Group) : groupFromTag tag = .ok g ↔ g.code = tag := by
  constructor
  · intro h
    unfold groupFromTag at h
    split at h <;> cases h <;> rfl
  · rintro rfl
    cases g <;> rfl

theorem optClassFromTag_eq_ok (tag : UInt8) (c : Option DeviceClass) :
    optClassFromTag tag = .ok c ↔ c.elim 0 DeviceClass.code = tag := by
  constructor
  · intro h
    unfold optClassFromTag at h
    split at h
    · cases h
      rfl
    · cases hc : deviceClassFromTag tag with
      | error e =>
        rw [hc] at h
        cases h
      | ok klass =>
        rw [hc] at h
        cases h
        exact (deviceClassFromTag_eq_ok tag klass).mp hc
  · rintro rfl
    cases c with
    | none => rfl
    | some klass => cases klass <;> rfl

theorem statusFromTag_eq_ok (tag : UInt8) (s : Status) :
    statusFromTag tag = .ok s ↔ s.code = tag := by
  constructor
  · intro h
    unfold statusFromTag at h
    split at h <;> cases h <;> rfl
  · rintro rfl
    cases s <;> rfl

theorem version_reads : version.Reads fun _ bs => bs = [VERSION] := by
  have hcheck (v : UInt8) :
      (if v ≠ VERSION then throw (.version v) else pure () : Parser Unit).Reads
        fun _ bs => v = VERSION ∧ bs = [] := by
    by_cases hv : v = VERSION
    · rw [if_neg (not_not.mpr hv)]
      apply (Reader.Reads.pure ()).congr
      exact fun _ bs => and_congr_left' ⟨fun _ => rfl, fun _ => hv⟩
    · rw [if_pos hv]
      apply (Reader.Reads.throw _).congr
      exact fun _ bs => ⟨fun h => hv h.1, False.elim⟩
  apply (u8_reads.bind fun v _ _ => hcheck v).congr
  intro _ bs
  constructor
  · rintro rfl
    exact ⟨VERSION, _, [], rfl, ⟨rfl, rfl⟩, rfl⟩
  · rintro ⟨v, _, _, rfl, ⟨rfl, rfl⟩, rfl⟩
    rfl

/-! ### Strings -/

/-- A string that is put as it is. -/
structure Clean (s : String) : Prop where
  short : (Utf8.bytes s).length ≤ MAX_STRING
  plain : 0 ∉ Utf8.bytes s

/-- A string cut at a character boundary to `MAX_STRING` bytes, and without its null characters. -/
def cut (s : String) : String :=
  String.ofList ((Utf8.fit MAX_STRING s.toList).filter (· ≠ '\x00'))

theorem bytes_cut (s : String) :
    Utf8.bytes (cut s) = (Utf8.encode (Utf8.fit MAX_STRING s.toList)).filter (· ≠ 0) := by
  rw [cut, Utf8.bytes_ofList, Utf8.filter_zero]

theorem clean_cut (s : String) : Clean (cut s) where
  short := by
    rw [bytes_cut]
    exact Nat.le_trans (List.length_filter_le _ _) (Utf8.length_fit _ _)
  plain := by
    rw [bytes_cut]
    intro hmem
    have hne := (List.mem_filter.mp hmem).2
    exact of_decide_eq_true hne rfl

theorem cut_of_clean {s : String} (h : Clean s) : cut s = s := by
  have hshort := h.short
  have hplain := h.plain
  rw [Utf8.bytes_eq_encode] at hshort hplain
  have hnull : s.toList.filter (· ≠ '\x00') = s.toList := by
    apply List.filter_eq_self.mpr
    intro c hc
    apply decide_eq_true
    apply Utf8.ne_null_of_ne_zero ?_ c hc
    rintro b hb rfl
    exact hplain hb
  rw [cut, Utf8.fit_of_length hshort, hnull, String.ofList_toList]

/-- A string is put as the string that it is cut to. -/
theorem putString_eq (s : String) :
    putString s = be16 (UInt16.ofNat (Utf8.bytes (cut s)).length) ++ Utf8.bytes (cut s) := by
  have hfit : Utf8.fit (min (Utf8.encode s.toList).length MAX_STRING) s.toList =
      Utf8.fit MAX_STRING s.toList := by
    rcases Nat.le_total (Utf8.encode s.toList).length MAX_STRING with hle | hle
    · rw [Nat.min_eq_left hle, Utf8.fit_of_length (Nat.le_refl _), Utf8.fit_of_length hle]
    · rw [Nat.min_eq_right hle]
  unfold putString
  rw [bytes_cut, Utf8.bytes_eq_encode]
  dsimp only
  rw [Utf8.take_floorBoundary, hfit]

theorem putString_cut (s : String) : putString (cut s) = putString s := by
  rw [putString_eq, putString_eq, cut_of_clean (clean_cut s)]

theorem putString_of_clean {s : String} (h : Clean s) :
    putString s = be16 (UInt16.ofNat (Utf8.bytes s).length) ++ Utf8.bytes s := by
  rw [putString_eq, cut_of_clean h]

theorem ofBytes_eq_ok {bytes : List UInt8} {s : String} :
    ofBytes bytes = .ok s ↔ Utf8.bytes s = bytes ∧ 0 ∉ bytes := by
  unfold ofBytes
  constructor
  · intro h
    split at h
    · cases h
    next hplain =>
      split at h <;> cases h
      next hs => exact ⟨Utf8.ofBytes_eq_some.mp hs, hplain⟩
  · rintro ⟨hs, hplain⟩
    rw [if_neg hplain, Utf8.ofBytes_eq_some.mpr hs]

theorem toNat_length {n : ℕ} (h : n ≤ MAX_STRING) : (UInt16.ofNat n).toNat = n := by
  rw [UInt16.toNat_ofNat']
  apply Nat.mod_eq_of_lt
  unfold MAX_STRING at h
  omega

theorem string_reads : string.Reads fun s bs => Clean s ∧ bs = putString s := by
  have hbody (len : UInt16) : (if MAX_STRING < len.toNat then throw .badString
      else do
        let bytes ← take .truncated len.toNat
        lift (ofBytes bytes) : Parser String).Reads
      fun s bs => Clean s ∧ (Utf8.bytes s).length = len.toNat ∧ bs = Utf8.bytes s := by
    split
    next hlong =>
      apply (Reader.Reads.throw _).congr
      intro s bs
      refine ⟨?_, False.elim⟩
      rintro ⟨hclean, hlength, -⟩
      have hshort := hclean.short
      omega
    next hshort =>
      apply ((Reader.Reads.take _ _).bind fun bytes _ _ => .lift (ofBytes bytes)).congr
      intro s bs
      constructor
      · rintro ⟨hclean, hlength, rfl⟩
        exact ⟨_, _, [], ⟨rfl, hlength⟩, ⟨ofBytes_eq_ok.mpr ⟨rfl, hclean.plain⟩, rfl⟩,
          (List.append_nil _).symm⟩
      · rintro ⟨bytes, _, _, ⟨rfl, hlength⟩, ⟨hs, rfl⟩, rfl⟩
        obtain ⟨rfl, hplain⟩ := ofBytes_eq_ok.mp hs
        exact ⟨⟨by omega, hplain⟩, hlength, List.append_nil _⟩
  apply (u16_reads.bind fun len _ _ => hbody len).congr
  intro s bs
  constructor
  · rintro ⟨hclean, rfl⟩
    exact ⟨_, _, _, rfl, ⟨hclean, (toNat_length hclean.short).symm, rfl⟩, putString_of_clean hclean⟩
  · rintro ⟨len, _, _, rfl, ⟨hclean, hlength, rfl⟩, rfl⟩
    refine ⟨hclean, ?_⟩
    rw [putString_of_clean hclean, hlength, UInt16.ofNat_toNat]

/-! ### Requests -/

namespace Request

/-- The strings are put as they are. -/
def Sound : Request → Prop
  | openDevice _ _ path => Clean path
  | _ => True

/-- The request with its path cut. -/
def cut : Request → Request
  | openDevice klass readOnly path => openDevice klass readOnly (RelayBroker.cut path)
  | m => m

theorem sound_cut (m : Request) : m.cut.Sound := by
  cases m with
  | openDevice _ _ path => exact clean_cut path
  | _ => trivial

theorem encode_cut (m : Request) : m.cut.encode = m.encode := by
  cases m with
  | openDevice _ _ path => simp only [cut, encode, putString_cut]
  | _ => rfl

/-- The tag of a request. -/
def tag : Request → UInt8
  | listDevices _ => 1
  | openDevice _ _ _ => 2
  | grantGroup _ => 3
  | provisionGroups => 4

theorem fields_reads (t : UInt8) : (fields t).Reads fun m bs =>
    m.Sound ∧ m.tag = t ∧ m.encode = [VERSION, t] ++ bs := by
  unfold fields
  split
  · apply ((coded_reads optClassFromTag_eq_ok).bind fun klass _ _ =>
      .pure (Request.listDevices klass)).congr
    intro m bs
    constructor
    · rintro ⟨-, htag, henc⟩
      cases m <;> cases htag
      exact ⟨_, _, [], rfl, ⟨rfl, rfl⟩, (List.cons.inj (List.cons.inj henc).2).2.symm⟩
    · rintro ⟨klass, _, _, rfl, ⟨rfl, rfl⟩, rfl⟩
      exact ⟨trivial, rfl, rfl⟩
  · apply ((coded_reads deviceClassFromTag_eq_ok).bind fun klass _ _ =>
      (coded_reads boolOf_eq_ok).bind fun readOnly _ _ => string_reads.bind fun path _ _ =>
      .pure (Request.openDevice klass readOnly path)).congr
    intro m bs
    constructor
    · rintro ⟨hsound, htag, henc⟩
      cases m <;> cases htag
      exact ⟨_, _, _, rfl, ⟨_, _, _, rfl, ⟨_, _, _, ⟨hsound, rfl⟩, ⟨rfl, rfl⟩,
        (List.append_nil _).symm⟩, rfl⟩, (List.cons.inj (List.cons.inj henc).2).2.symm⟩
    · rintro ⟨klass, _, _, rfl, ⟨readOnly, _, _, rfl, ⟨path, _, _, ⟨hclean, rfl⟩, ⟨rfl, rfl⟩, rfl⟩,
        rfl⟩, rfl⟩
      exact ⟨hclean, rfl, by rw [List.append_nil]; rfl⟩
  · apply ((coded_reads groupFromTag_eq_ok).bind fun group _ _ =>
      .pure (Request.grantGroup group)).congr
    intro m bs
    constructor
    · rintro ⟨-, htag, henc⟩
      cases m <;> cases htag
      exact ⟨_, _, [], rfl, ⟨rfl, rfl⟩, (List.cons.inj (List.cons.inj henc).2).2.symm⟩
    · rintro ⟨group, _, _, rfl, ⟨rfl, rfl⟩, rfl⟩
      exact ⟨trivial, rfl, rfl⟩
  · apply (Reader.Reads.pure Request.provisionGroups).congr
    intro m bs
    constructor
    · rintro ⟨-, htag, henc⟩
      cases m <;> cases htag
      exact ⟨rfl, (List.cons.inj (List.cons.inj henc).2).2.symm⟩
    · rintro ⟨rfl, rfl⟩
      exact ⟨trivial, rfl, rfl⟩
  next h1 h2 h3 h4 =>
    apply (Reader.Reads.throw _).congr
    intro m bs
    refine ⟨?_, False.elim⟩
    rintro ⟨-, rfl, -⟩
    cases m
    · exact h1 rfl
    · exact h2 rfl
    · exact h3 rfl
    · exact h4 rfl

theorem reader_reads : reader.Reads fun m bs => m.Sound ∧ bs = m.encode := by
  apply (version_reads.bind fun _ _ _ => u8_reads.bind fun t _ _ => fields_reads t).congr
  intro m bs
  constructor
  · rintro ⟨hsound, rfl⟩
    have henc : ∃ rest, m.encode = [VERSION, m.tag] ++ rest := by
      cases m <;> exact ⟨_, rfl⟩
    obtain ⟨rest, hrest⟩ := henc
    exact ⟨(), _, _, rfl, ⟨m.tag, _, rest, rfl, ⟨hsound, rfl, hrest⟩, rfl⟩, hrest⟩
  · rintro ⟨_, _, _, rfl, ⟨t, _, _, rfl, ⟨hsound, -, henc⟩, rfl⟩, rfl⟩
    exact ⟨hsound, henc.symm⟩

/-- A body is read as a request when it is the encoding of one with its path within its bound. -/
theorem decode_iff {body : List UInt8} {m : Request} :
    decode body = .ok m ↔ m.Sound ∧ body = m.encode := reader_reads.whole_iff

end Request

/-! ### Responses -/

namespace DeviceDescriptor

structure Sound (d : DeviceDescriptor) : Prop where
  path : Clean d.path
  product : Clean d.product
  manufacturer : Clean d.manufacturer

/-- The device with its strings cut. -/
def cut (d : DeviceDescriptor) : DeviceDescriptor :=
  { d with
    path := RelayBroker.cut d.path
    product := RelayBroker.cut d.product
    manufacturer := RelayBroker.cut d.manufacturer }

theorem sound_cut (d : DeviceDescriptor) : d.cut.Sound :=
  ⟨clean_cut _, clean_cut _, clean_cut _⟩

theorem encode_cut (d : DeviceDescriptor) : d.cut.encode = d.encode := by
  simp only [cut, encode, putString_cut]

theorem reader_reads : reader.Reads fun d bs => d.Sound ∧ bs = d.encode := by
  apply ((coded_reads deviceClassFromTag_eq_ok).bind fun klass _ _ =>
    string_reads.bind fun path _ _ => u16_reads.bind fun vid _ _ => u16_reads.bind fun pid _ _ =>
    string_reads.bind fun product _ _ => string_reads.bind fun manufacturer _ _ =>
    .pure (DeviceDescriptor.mk klass path vid pid product manufacturer)).congr
  intro d bs
  constructor
  · rintro ⟨hsound, rfl⟩
    refine ⟨d.klass, _, _, rfl, ⟨d.path, _, _, ⟨hsound.path, rfl⟩, ⟨d.vid, _, _, rfl, ⟨d.pid, _, _,
      rfl, ⟨d.product, _, _, ⟨hsound.product, rfl⟩, ⟨d.manufacturer, _, _,
      ⟨hsound.manufacturer, rfl⟩, ⟨rfl, rfl⟩, rfl⟩, rfl⟩, rfl⟩, rfl⟩, rfl⟩, ?_⟩
    simp only [encode, List.append_assoc, List.append_nil]
  · rintro ⟨klass, _, _, rfl, ⟨path, _, _, ⟨hpath, rfl⟩, ⟨vid, _, _, rfl, ⟨pid, _, _, rfl, ⟨product,
      _, _, ⟨hproduct, rfl⟩, ⟨manufacturer, _, _, ⟨hmanufacturer, rfl⟩, ⟨rfl, rfl⟩, rfl⟩, rfl⟩,
      rfl⟩, rfl⟩, rfl⟩, rfl⟩
    refine ⟨⟨hpath, hproduct, hmanufacturer⟩, ?_⟩
    simp only [encode, List.append_assoc, List.append_nil]

end DeviceDescriptor

namespace Response

/-- The strings are put as they are, the lists are within their bounds, and an error has the status
of one. -/
def Sound : Response → Prop
  | devices devs => devs.length ≤ MAX_DEVICES ∧ ∀ d ∈ devs, d.Sound
  | opened => True
  | groupReport _ user groups => Clean user ∧ groups.length ≤ MAX_GROUPS ∧ ∀ g ∈ groups, Clean g
  | error status reason => status ≠ .ok ∧ Clean reason

/-- The response with its strings cut, and with its list of devices cut. -/
def cut : Response → Response
  | devices devs => devices ((devs.take MAX_DEVICES).map DeviceDescriptor.cut)
  | opened => opened
  | groupReport applied user groups =>
    groupReport applied (RelayBroker.cut user) (groups.map RelayBroker.cut)
  | error status reason => error status (RelayBroker.cut reason)

/-- The broker reports few groups, and its errors have the status of one. -/
def Proper : Response → Prop
  | groupReport _ _ groups => groups.length ≤ MAX_GROUPS
  | error status _ => status ≠ .ok
  | _ => True

theorem sound_cut {m : Response} (h : m.Proper) : m.cut.Sound := by
  cases m with
  | devices devs =>
    constructor
    · rw [List.length_map]
      exact List.length_take_le _ _
    · intro d hd
      obtain ⟨d', -, rfl⟩ := List.mem_map.mp hd
      exact d'.sound_cut
  | opened => trivial
  | groupReport applied user groups =>
    refine ⟨clean_cut user, by rw [List.length_map]; exact h, ?_⟩
    intro g hg
    obtain ⟨g', -, rfl⟩ := List.mem_map.mp hg
    exact clean_cut g'
  | error status reason => exact ⟨h, clean_cut reason⟩

/-- A response has the encoding of the response that it is cut to. -/
theorem encode_cut (m : Response) : m.cut.encode = m.encode := by
  cases m with
  | devices devs =>
    have hmin : min ((devs.take MAX_DEVICES).map DeviceDescriptor.cut).length MAX_DEVICES =
        min devs.length MAX_DEVICES := by
      rw [List.length_map, List.length_take, Nat.min_comm MAX_DEVICES, Nat.min_assoc, Nat.min_self]
    have htake : ((devs.take MAX_DEVICES).map DeviceDescriptor.cut).take
        (min devs.length MAX_DEVICES) =
        (devs.take (min devs.length MAX_DEVICES)).map DeviceDescriptor.cut := by
      rw [← List.map_take, List.take_take, Nat.min_assoc, Nat.min_self]
    simp only [cut, encode, hmin, htake, List.flatMap_map, DeviceDescriptor.encode_cut]
  | opened => rfl
  | groupReport applied user groups =>
    simp only [cut, encode, putString_cut, List.length_map, ← List.map_take, List.flatMap_map]
  | error status reason => simp only [cut, encode, putString_cut]

theorem devices_reads (n : UInt16) : (if MAX_DEVICES < n.toNat then throw .tooMany
    else do
      let devs ← times DeviceDescriptor.reader n.toNat
      pure (.devices devs) : Parser Response).Reads fun m bs =>
    ∃ devs, m = devices devs ∧ m.Sound ∧ devs.length = n.toNat ∧
      bs = devs.flatMap DeviceDescriptor.encode := by
  split
  next hmany =>
    apply (Reader.Reads.throw _).congr
    intro m bs
    refine ⟨?_, False.elim⟩
    rintro ⟨devs, rfl, hsound, hlength, -⟩
    have hle := hsound.1
    omega
  next hfew =>
    apply ((DeviceDescriptor.reader_reads.times n.toNat).bind fun devs _ _ =>
      .pure (devices devs)).congr
    intro m bs
    constructor
    · rintro ⟨devs, rfl, hsound, hlength, rfl⟩
      exact ⟨devs, _, [], ⟨hlength, hsound.2, rfl⟩, ⟨rfl, rfl⟩, (List.append_nil _).symm⟩
    · rintro ⟨devs, _, _, ⟨hlength, hsound, rfl⟩, ⟨rfl, rfl⟩, rfl⟩
      exact ⟨devs, rfl, ⟨by omega, hsound⟩, hlength, List.append_nil _⟩

theorem groups_reads (applied : Bool) (user : String) (n : UInt8) :
    (if MAX_GROUPS < n.toNat then throw .tooMany
    else do
      let groups ← times string n.toNat
      pure (.groupReport applied user groups) : Parser Response).Reads fun m bs =>
    ∃ groups, m = groupReport applied user groups ∧ (∀ g ∈ groups, Clean g) ∧
      groups.length ≤ MAX_GROUPS ∧ groups.length = n.toNat ∧ bs = groups.flatMap putString := by
  split
  next hmany =>
    apply (Reader.Reads.throw _).congr
    intro m bs
    refine ⟨?_, False.elim⟩
    rintro ⟨groups, -, -, hle, hlength, -⟩
    omega
  next hfew =>
    apply ((string_reads.times n.toNat).bind fun groups _ _ =>
      .pure (groupReport applied user groups)).congr
    intro m bs
    constructor
    · rintro ⟨groups, rfl, hclean, -, hlength, rfl⟩
      exact ⟨groups, _, [], ⟨hlength, hclean, rfl⟩, ⟨rfl, rfl⟩, (List.append_nil _).symm⟩
    · rintro ⟨groups, _, _, ⟨hlength, hclean, rfl⟩, ⟨rfl, rfl⟩, rfl⟩
      exact ⟨groups, rfl, hclean, by omega, hlength, List.append_nil _⟩

/-- The encoding of a response with its lists within their bounds. -/
theorem encode_devices {devs : List DeviceDescriptor} (h : devs.length ≤ MAX_DEVICES) :
    (devices devs).encode = [VERSION, Status.ok.code, 1] ++ be16 (UInt16.ofNat devs.length) ++
      devs.flatMap DeviceDescriptor.encode := by
  simp only [encode, Nat.min_eq_left h, List.take_length]

theorem encode_groupReport {applied : Bool} {user : String} {groups : List String}
    (h : groups.length ≤ MAX_GROUPS) :
    (groupReport applied user groups).encode =
      [VERSION, Status.ok.code, 3, boolCode applied] ++ putString user ++
        [UInt8.ofNat groups.length] ++ groups.flatMap putString := by
  simp only [encode, Nat.min_eq_left h, List.take_length]

/-- The response went well and has the tag `t`. -/
def Tagged (t : UInt8) : Response → Prop
  | devices _ => t = 1
  | opened => t = 2
  | groupReport _ _ _ => t = 3
  | error _ _ => False

theorem fields_reads (t : UInt8) : (fields t).Reads fun m bs =>
    m.Sound ∧ m.Tagged t ∧ m.encode = [VERSION, Status.ok.code, t] ++ bs := by
  unfold fields
  split
  · apply (u16_reads.bind fun n _ _ => devices_reads n).congr
    intro m bs
    constructor
    · rintro ⟨hsound, htag, henc⟩
      cases m with
      | devices devs =>
        have hle := hsound.1
        have hlength : (UInt16.ofNat devs.length).toNat = devs.length := by
          rw [UInt16.toNat_ofNat']
          apply Nat.mod_eq_of_lt
          unfold MAX_DEVICES at hle
          omega
        rw [encode_devices hle, List.append_assoc] at henc
        exact ⟨_, _, _, rfl, ⟨devs, rfl, hsound, hlength.symm, rfl⟩,
          (List.append_cancel_left henc).symm⟩
      | error => exact htag.elim
      | opened => exact absurd (show (1 : UInt8) = 2 from htag) (by decide)
      | groupReport => exact absurd (show (1 : UInt8) = 3 from htag) (by decide)
    · rintro ⟨n, _, _, rfl, ⟨devs, rfl, hsound, hlength, rfl⟩, rfl⟩
      refine ⟨hsound, rfl, ?_⟩
      rw [encode_devices hsound.1, hlength, UInt16.ofNat_toNat, List.append_assoc]
  · apply (Reader.Reads.pure Response.opened).congr
    intro m bs
    constructor
    · rintro ⟨-, htag, henc⟩
      cases m with
      | opened =>
        have hbs : [VERSION, Status.ok.code, 2] ++ [] = [VERSION, Status.ok.code, 2] ++ bs := henc
        exact ⟨rfl, (List.append_cancel_left hbs).symm⟩
      | error => exact htag.elim
      | devices => exact absurd (show (2 : UInt8) = 1 from htag) (by decide)
      | groupReport => exact absurd (show (2 : UInt8) = 3 from htag) (by decide)
    · rintro ⟨rfl, rfl⟩
      exact ⟨trivial, rfl, rfl⟩
  · apply ((coded_reads boolOf_eq_ok).bind fun applied _ _ => string_reads.bind fun user _ _ =>
      u8_reads.bind fun n _ _ => groups_reads applied user n).congr
    intro m bs
    constructor
    · rintro ⟨hsound, htag, henc⟩
      cases m with
      | groupReport applied user groups =>
        obtain ⟨huser, hle, hgroups⟩ := hsound
        have hlength : (UInt8.ofNat groups.length).toNat = groups.length := by
          rw [UInt8.toNat_ofNat']
          apply Nat.mod_eq_of_lt
          unfold MAX_GROUPS at hle
          omega
        rw [encode_groupReport hle] at henc
        have hbs : [VERSION, Status.ok.code, 3] ++ ([boolCode applied] ++ (putString user ++
            ([UInt8.ofNat groups.length] ++ groups.flatMap putString))) =
            [VERSION, Status.ok.code, 3] ++ bs := by
          rw [← henc]
          simp only [List.append_assoc, List.cons_append, List.nil_append]
        exact ⟨applied, _, _, rfl, ⟨user, _, _, ⟨huser, rfl⟩, ⟨_, _, _, rfl,
          ⟨groups, rfl, hgroups, hle, hlength.symm, rfl⟩, rfl⟩, rfl⟩,
          (List.append_cancel_left hbs).symm⟩
      | error => exact htag.elim
      | devices => exact absurd (show (3 : UInt8) = 1 from htag) (by decide)
      | opened => exact absurd (show (3 : UInt8) = 2 from htag) (by decide)
    · rintro ⟨applied, _, _, rfl, ⟨user, _, _, ⟨huser, rfl⟩, ⟨n, _, _, rfl,
        ⟨groups, rfl, hgroups, hle, hlength, rfl⟩, rfl⟩, rfl⟩, rfl⟩
      refine ⟨⟨huser, hle, hgroups⟩, rfl, ?_⟩
      rw [encode_groupReport hle, hlength, UInt8.ofNat_toNat]
      simp only [List.append_assoc, List.cons_append, List.nil_append]
  next h1 h2 h3 =>
    apply (Reader.Reads.throw _).congr
    intro m bs
    refine ⟨?_, False.elim⟩
    rintro ⟨-, htag, -⟩
    cases m
    · exact h1 htag
    · exact h2 htag
    · exact h3 htag
    · exact htag

theorem status_reads (status : Status) : (if status ≠ .ok then do
      let reason ← string
      pure (.error status reason)
    else do
      let tag ← u8
      fields tag : Parser Response).Reads fun m bs =>
    m.Sound ∧ m.encode = [VERSION, status.code] ++ bs := by
  split
  next hfailed =>
    apply (string_reads.bind fun reason _ _ => .pure (Response.error status reason)).congr
    intro m bs
    constructor
    · rintro ⟨hsound, henc⟩
      have hcode : status.code ≠ 0 := by
        intro hzero
        apply hfailed
        cases status with
        | ok => rfl
        | _ => exact absurd hzero (by decide)
      have hsecond : m.encode.tail.head? = some status.code := by
        rw [henc]
        rfl
      cases m with
      | error status' reason =>
        have hstatus : status' = status := by
          have heq := Option.some.inj hsecond
          exact Except.ok.inj (((statusFromTag_eq_ok _ _).mpr heq).symm.trans
            ((statusFromTag_eq_ok _ _).mpr rfl))
        subst hstatus
        exact ⟨reason, _, [], ⟨hsound.2, rfl⟩, ⟨rfl, rfl⟩,
          (List.append_nil _).symm ▸ (List.append_cancel_left henc).symm⟩
      | devices devs => exact absurd (Option.some.inj hsecond).symm hcode
      | opened => exact absurd (Option.some.inj hsecond).symm hcode
      | groupReport applied user groups => exact absurd (Option.some.inj hsecond).symm hcode
    · rintro ⟨reason, _, _, ⟨hreason, rfl⟩, ⟨rfl, rfl⟩, rfl⟩
      refine ⟨⟨hfailed, hreason⟩, ?_⟩
      rw [List.append_nil]
      rfl
  next hok =>
    obtain rfl : status = .ok := not_not.mp hok
    apply (u8_reads.bind fun t _ _ => fields_reads t).congr
    intro m bs
    constructor
    · rintro ⟨hsound, henc⟩
      have htagged : ∃ t rest, m.Tagged t ∧ m.encode = [VERSION, Status.ok.code, t] ++ rest := by
        cases m with
        | devices devs => exact ⟨1, _, rfl, List.append_assoc _ _ _⟩
        | opened => exact ⟨2, [], rfl, rfl⟩
        | groupReport applied user groups =>
          refine ⟨3, [boolCode applied] ++ putString user ++
            [UInt8.ofNat (min groups.length MAX_GROUPS)] ++
            (groups.take (min groups.length MAX_GROUPS)).flatMap putString, rfl, ?_⟩
          simp only [encode, List.append_assoc, List.cons_append, List.nil_append]
        | error status reason =>
          have hcode : status.code = Status.ok.code := (List.cons.inj (List.cons.inj henc).2).1
          exact absurd hcode (by
            have hne := hsound.1
            cases status with
            | ok => exact absurd rfl hne
            | _ => decide)
      obtain ⟨t, rest, htag, hrest⟩ := htagged
      refine ⟨t, _, rest, rfl, ⟨hsound, htag, hrest⟩, ?_⟩
      have hbs : [VERSION, Status.ok.code] ++ bs = [VERSION, Status.ok.code] ++ ([t] ++ rest) :=
        henc.symm.trans hrest
      exact List.append_cancel_left hbs
    · rintro ⟨t, _, _, rfl, ⟨hsound, -, henc⟩, rfl⟩
      exact ⟨hsound, henc⟩

theorem reader_reads : reader.Reads fun m bs => m.Sound ∧ bs = m.encode := by
  apply (version_reads.bind fun _ _ _ =>
    (coded_reads statusFromTag_eq_ok).bind fun status _ _ => status_reads status).congr
  intro m bs
  constructor
  · rintro ⟨hsound, rfl⟩
    have henc : ∃ (status : Status) (rest : List UInt8),
        m.encode = [VERSION, status.code] ++ rest := by
      cases m with
      | devices devs => exact ⟨.ok, _, List.append_assoc _ _ _⟩
      | opened => exact ⟨.ok, _, rfl⟩
      | groupReport applied user groups =>
        exact ⟨.ok, [3, boolCode applied] ++ putString user ++
          [UInt8.ofNat (min groups.length MAX_GROUPS)] ++
          (groups.take (min groups.length MAX_GROUPS)).flatMap putString, rfl⟩
      | error status reason => exact ⟨status, _, rfl⟩
    obtain ⟨status, rest, hrest⟩ := henc
    exact ⟨(), _, _, rfl, ⟨status, _, rest, rfl, ⟨hsound, hrest⟩, rfl⟩, hrest⟩
  · rintro ⟨_, _, _, rfl, ⟨status, _, _, rfl, ⟨hsound, henc⟩, rfl⟩, rfl⟩
    exact ⟨hsound, henc.symm⟩

/-- A body is read as a response when it is the encoding of one within its bounds. -/
theorem decode_iff {body : List UInt8} {m : Response} :
    decode body = .ok m ↔ m.Sound ∧ body = m.encode := reader_reads.whole_iff

end Response

end HamsOpen.RelayBroker
