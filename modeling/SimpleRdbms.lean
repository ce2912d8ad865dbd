import SimpleRdbms.Proof.Poisoning
import SimpleRdbms.Proof.WireStatus
import SimpleRdbms.Proof.WalRule
import SimpleRdbms.Proof.Ownership
import SimpleRdbms.Proof.WaitsFor
import SimpleRdbms.Proof.LogFaults
import SimpleRdbms.Proof.DoubleWrite
import SimpleRdbms.Proof.SegmentNames
import SimpleRdbms.Proof.RecoverySteps
import SimpleRdbms.Proof.BTreeScan
import SimpleRdbms.Proof.BTreeLookups
import SimpleRdbms.Proof.BTreeOverflow
import SimpleRdbms.Proof.IndexScans
import SimpleRdbms.Proof.KeyCodec
import SimpleRdbms.Proof.CatalogRows
import SimpleRdbms.Proof.Fingerprints
import SimpleRdbms.Proof.Replacer
import SimpleRdbms.Proof.VersionBookkeeping
import SimpleRdbms.Proof.IndexPages
import SimpleRdbms.Proof.NodeRebuild
