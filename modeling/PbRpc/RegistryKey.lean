import PbRpc.RpcServerList

/-!
# Keys under any base directory

`registerService` builds a key by putting the configured base directory in
front of the service, and `parseukv` finds the service again by its position:
it takes the second segment of the key. The base directory is a path, and a
path of two segments or more has a second segment of its own. So what
`parseukv` takes for the service is the service when the directory is a single
segment, and otherwise only when its second segment happens to be the same
name (`parseukv_registerService`). The value is read as it was written in any
case.
-/

namespace PbRpc

open RpcDispatcher

/-- **The second segment is no other**: a base directory that goes beyond its
first segment goes on with the name of the service. -/
def SecondSegmentIs (base name : Bytes) : Prop :=
  ∀ segment, (parts slash base)[1]? = some segment → segment = name

/-- **The segments of a key**: those of the base directory, the service, and
the address. -/
theorem IPv4.parts_registryKey (ip : IPv4) {config : CConfig} (hip : config.ip_ = ip.text)
    (service_name : Bytes) :
    parts slash (registryKey config service_name)
      = parts slash config.etcd_base_dir_ ++ (parts slash service_name
        ++ [ip.text ++ minus :: toStringInt config.port_]) := by
  rw [registryKey, parts_append, parts_append, hip, ip.parts_slash_address]

/-- The segment that is taken for the service. -/
theorem IPv4.method_registryKey (ip : IPv4) {config : CConfig} (hip : config.ip_ = ip.text)
    (hbase : parts slash config.etcd_base_dir_ ≠ []) {service_name : Bytes}
    (hslash : slash ∉ service_name) :
    ∃ segment method rest,
      parts slash (registryKey config service_name) = segment :: method :: rest
        ∧ (method = service_name
          ↔ service_name ≠ [] ∧ SecondSegmentIs config.etcd_base_dir_ service_name) := by
  obtain ⟨segment, segments, hsegments⟩ := List.exists_cons_of_ne_nil hbase
  rw [ip.parts_registryKey hip, SecondSegmentIs, hsegments]
  cases segments with
  | cons second segments =>
    -- the base directory has a second segment, and it is not empty
    have hsecond : second ≠ [] := by
      exact @ne_nil_of_mem_parts slash config.etcd_base_dir_ second
        (hsegments ▸ List.mem_cons_of_mem _ List.mem_cons_self)
    refine ⟨segment, second, _, rfl, ?_⟩
    simp only [List.getElem?_cons_succ, List.getElem?_cons_zero, Option.some.injEq, forall_eq']
    constructor
    · rintro rfl
      exact ⟨hsecond, rfl⟩
    · exact And.right
  | nil =>
    have hone : ∀ name, ([segment] : List Bytes)[1]? = some name → name = service_name := by
      intro name h
      cases h
    by_cases hname : service_name = []
    · -- an empty name is no segment, and the address follows at once
      rw [hname, parts_nil]
      refine ⟨segment, _, [], rfl, ?_⟩
      exact iff_of_false (List.append_ne_nil_of_left_ne_nil ip.ne_nil _) (fun h => h.1 rfl)
    · rw [parts_of_notMem hslash hname]
      exact ⟨segment, service_name, _, rfl, iff_of_true rfl ⟨hname, hone⟩⟩

/-- **What `parseukv` reads of a registered service** is the service, the
address and the load that were published exactly when the base directory has
no second segment, or has the service's own name there. -/
theorem parseukv_registerService {Message : Type} (d : RpcDispatcher Message)
    (service : Service Message) (config : CConfig) (ip : IPv4) (cpu_usage : Double)
    (out : ServerInfo) (hbase : parts slash config.etcd_base_dir_ ≠ [])
    (hslash : slash ∉ service.full_name) (hip : config.ip_ = ip.text)
    (hport : 0 ≤ config.port_ ∧ config.port_ ≤ 65535) (hcpu : cpu_usage.InRange) :
    parseukv (d.registerService config cpu_usage service).2.1
          (d.registerService config cpu_usage service).2.2 out
        = .ok ⟨cpu_usage.printed, config.ip_, config.port_, service.full_name⟩
      ↔ service.full_name ≠ [] ∧ SecondSegmentIs config.etcd_base_dir_ service.full_name := by
  have hint : InInt config.port_ := ⟨by omega, by omega⟩
  obtain ⟨segment, method, rest, hkey, hmethod⟩ := ip.method_registryKey hip hbase hslash
  rw [← hmethod]
  show parseukv (registryKey config service.full_name) (registryValue config cpu_usage) out = _ ↔ _
  rw [ip.parseukv_registryValue hip hint hcpu hkey out, hip]
  simp only [Except.ok.injEq, ServerInfo.mk.injEq, true_and]

theorem valid_localhost : ∀ c ∈ Bytes.ofString "127.0.0.1", isDigit c = true ∨ c = dot := by
  decide +kernel

theorem localhost_ne_nil : Bytes.ofString "127.0.0.1" ≠ [] := by
  decide +kernel

/-- The loopback address. -/
def IPv4.localhost : IPv4 where
  text := Bytes.ofString "127.0.0.1"
  ne_nil := localhost_ne_nil
  valid := valid_localhost

/-- A service at port 8080 of the loopback address, under a base directory. -/
def localConfig (base : String) : CConfig where
  ip_ := IPv4.localhost.text
  port_ := 8080
  etcd_base_dir_ := Bytes.ofString base

/-- A service without methods. -/
def orderService : Service Unit where
  full_name := Bytes.ofString "Order"
  methods := []

/-- The locals of a handler, before it calls `parseukv`. -/
def zeroLocals : ServerInfo := ⟨.finite 0, [], 0, []⟩

/-- Under a single segment the service is found again. -/
theorem parseukv_registerService_server :
    let published := RpcDispatcher.registerService ⟨∅⟩ (localConfig "/server") (.finite 0)
      orderService
    parseukv published.2.1 published.2.2 zeroLocals
      = .ok ⟨Double.printed (.finite 0), IPv4.localhost.text, 8080, Bytes.ofString "Order"⟩ := by
  refine (parseukv_registerService ⟨∅⟩ orderService (localConfig "/server") IPv4.localhost
    (.finite 0) zeroLocals (by decide +kernel) (by decide +kernel) rfl (by decide)
    inRange_zero).mpr ⟨by decide +kernel, fun segment h => ?_⟩
  have hone : (parts slash (localConfig "/server").etcd_base_dir_)[1]? = none := by
    decide +kernel
  rw [hone] at h
  cases h

/-- Under two segments the second is taken for the service. -/
theorem not_parseukv_registerService :
    let published := RpcDispatcher.registerService ⟨∅⟩ (localConfig "/prod/server") (.finite 0)
      orderService
    parts slash (localConfig "/prod/server").etcd_base_dir_
        = [Bytes.ofString "prod", Bytes.ofString "server"]
      ∧ parseukv published.2.1 published.2.2 zeroLocals
        = .ok ⟨Double.printed (.finite 0), IPv4.localhost.text, 8080, Bytes.ofString "server"⟩
      ∧ parseukv published.2.1 published.2.2 zeroLocals
        ≠ .ok ⟨Double.printed (.finite 0), IPv4.localhost.text, 8080, Bytes.ofString "Order"⟩ := by
  have hbase : parts slash (localConfig "/prod/server").etcd_base_dir_
      = [Bytes.ofString "prod", Bytes.ofString "server"] := by decide +kernel
  have hread : parseukv (registryKey (localConfig "/prod/server") orderService.full_name)
      (registryValue (localConfig "/prod/server") (.finite 0)) zeroLocals
      = .ok ⟨Double.printed (.finite 0), IPv4.localhost.text, 8080,
        Bytes.ofString "server"⟩ :=
    IPv4.localhost.parseukv_registryValue rfl (by decide) inRange_zero
      (IPv4.localhost.parts_registryKey rfl _) zeroLocals
  refine ⟨hbase, hread, fun h => ?_⟩
  have hsame := congrArg (Except.map ServerInfo.method) (hread.symm.trans h)
  exact absurd (Except.ok.inj hsame) (by decide +kernel)

end PbRpc
