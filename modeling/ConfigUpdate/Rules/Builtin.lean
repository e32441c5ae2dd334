import ConfigUpdate.Rules.Basic

/-!
# The built-in rules

The rules that hold where no rule document is given.
-/

namespace ConfigUpdate.RuleBook

/-- The built-in families of chips. -/
def builtinFamilies : ChipFamilies where
  exact := [
    ("spc1", [
      "ACS-MSN2700", "ACS-MSN2740", "ACS-MSN2100", "ACS-MSN2410", "ACS-MSN2010",
      "Mellanox-SN2700", "Mellanox-SN2700-A1", "Mellanox-SN2700-C28D8", "Mellanox-SN2700-D40C8S8",
      "Mellanox-SN2700-D44C10", "Mellanox-SN2700-D48C8", "Mellanox-SN2700-A1-D44C10",
      "Mellanox-SN2700-A1-D48C8"]),
    ("spc2", [
      "ACS-MSN3800", "Mellanox-SN3800-D112C8", "ACS-MSN3420", "ACS-MSN3700C", "ACS-MSN3700",
      "Mellanox-SN3800-C64", "Mellanox-SN3800-D100C12S2", "Mellanox-SN3800-D24C52",
      "Mellanox-SN3800-D28C49S1", "Mellanox-SN3800-D28C50"]),
    ("spc3", [
      "ACS-MSN4700", "ACS-MSN4600", "ACS-MSN4600C", "ACS-MSN4410", "Mellanox-SN4600C-D112C8",
      "Mellanox-SN4600C-C64", "Mellanox-SN4700-O8C48", "Mellanox-SN4600C-D100C12S2",
      "Mellanox-SN4600C-D48C40", "Mellanox-SN4700-A96C8V8", "Mellanox-SN4700-C128",
      "Mellanox-SN4700-O28", "Mellanox-SN4700-O8V48", "Mellanox-SN4700-V48C32"]),
    ("spc4", [
      "ACS-SN5600", "Mellanox-SN5600-O128", "Mellanox-SN5600-V256", "Mellanox-SN5600-C256S1",
      "ACS-SN5400", "Mellanox-SN5600-C224O8"]),
    ("spc5", [
      "ACS-SN5640", "Mellanox-SN5640-C512S2", "Mellanox-SN5640-C448O16"])]
  partly := [
    ("j2c+", [
      "Nokia-IXR7250E-36x100G", "Nokia-IXR7250E-36x400G"]),
    ("jr2", [
      "Arista-7800R3-48CQ2-C48", "Arista-7800R3-48CQM2-C48"]),
    ("q2c+", [
      "Nokia-IXR7250-X1B"]),
    ("td2", [
      "Force10-S6000", "Force10-S6000-Q24S32", "Arista-7050-QX32", "Arista-7050-QX-32S",
      "Nexus-3164", "Arista-7050QX32S-Q32"]),
    ("td3", [
      "Arista-7050CX3-32S-C32", "Arista-7050CX3-32S-D48C8"]),
    ("td4", [
      "Nokia-IXR7220-D4-36D"]),
    ("th", [
      "Force10-S6100", "Arista-7060CX-32S-C32", "Arista-7060CX-32S-C32-T1",
      "Arista-7060CX-32S-D48C8", "Celestica-DX010-C32", "Seastone-DX010"]),
    ("th2", [
      "Arista-7260CX3-D108C8", "Force10-Z9100-C32", "Arista-7260CX3-C64", "Arista-7260CX3-Q64"]),
    ("th3", [
      "Nokia-IXR7220-H3"]),
    ("th4", [
      "Nokia-IXR7220-H4-64D", "Nokia-IXR7220-H4-32D"]),
    ("th5", [
      "Nokia-IXR7220-H5-64D", "Arista-7060X6-64PE"])]

/-- The built-in rules about fields. -/
def builtinRules : List Rule := [
  { table := "BUFFER_POOL"
    validator := "rdma_config_update_validator"
    name := "Shared/headroom pool size changes"
    fields := [
      "ingress_lossless_pool/xoff", "ingress_lossless_pool/size", "egress_lossy_pool/size"]
    verbs := [.replace]
    platforms := [
      ("cisco-8000", 20201200), ("spc1", 20191100), ("spc2", 20191100), ("spc3", 20220500),
      ("spc4", 20221100), ("spc5", 20241200), ("td3", 20221100), ("td4", 20221100),
      ("th", 20221100), ("th2", 20221100), ("th3", 20221100), ("th4", 20221100),
      ("th5", 20231100)] },
  { table := "BUFFER_PROFILE"
    validator := "rdma_config_update_validator"
    name := "Dynamic threshold tuning"
    fields := [
      "dynamic_th"]
    verbs := [.replace]
    platforms := [
      ("cisco-8000", 20201200), ("spc1", 20181100), ("spc2", 20191100), ("spc3", 20220500),
      ("spc4", 20221100), ("spc5", 20241200), ("td2", 20181100), ("td3", 20201200),
      ("td4", 20221100), ("th", 20181100), ("th2", 20181100), ("th3", 20201200),
      ("th4", 20221100), ("th5", 20231100)] },
  { table := "BUFFER_PROFILE"
    validator := "rdma_config_update_validator"
    name := "PG headroom modification"
    fields := [
      "xoff"]
    verbs := [.replace]
    platforms := [
      ("cisco-8000", 20201200), ("spc1", 20191100), ("spc2", 20191100), ("spc3", 20220500),
      ("spc4", 20221100), ("spc5", 20241200), ("td2", 20191100), ("td3", 20221100),
      ("td4", 20221100), ("th", 20221100), ("th2", 20221100), ("th3", 20221100),
      ("th4", 20221100), ("th5", 20231100)] },
  { table := "BUFFER_PROFILE"
    validator := "rdma_config_update_validator"
    name := "Packet trimming"
    fields := [
      "packet_discard_action"]
    verbs := [.add, .replace]
    platforms := [
      ("spc4", 20241200), ("spc5", 20241200), ("th5", 20241200)] },
  { table := "PFC_WD"
    validator := "rdma_config_update_validator"
    name := "PFCWD enable/disable"
    fields := [
      "restoration_time", "detection_time", "action", "global/poll_interval", "pfc_stat_history"]
    verbs := [.remove, .add, .replace]
    platforms := [
      ("cisco-8000", 20201200), ("j2c+", 20220500), ("jr2", 20220500),
      ("marvell-teralynx", 20241200), ("q2c+", 20241200), ("spc1", 20181100), ("spc2", 20191100),
      ("spc3", 20220500), ("spc4", 20221100), ("spc5", 20241200), ("td2", 20181100),
      ("td3", 20201200), ("td4", 20221100), ("th", 20181100), ("th2", 20181100),
      ("th3", 20201200), ("th4", 20221100), ("th5", 20231100)] }]

/-- The built-in rules and families. -/
def builtin : RuleBook :=
  ⟨builtinFamilies, builtinRules⟩

end ConfigUpdate.RuleBook
