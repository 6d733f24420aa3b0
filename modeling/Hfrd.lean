import Hfrd.GoSdk.Invoke
import Hfrd.GoSdk.NameList
import Hfrd.GoSdk.ChannelJoin
import Hfrd.GoSdk.ChaincodeInstall
import Hfrd.GoSdk.IterateFuncLimit
import Hfrd.Channel.ConfigDelta
import Hfrd.Channel.SettingsUpdate
import Hfrd.Channel.Envelope
import Hfrd.Api.InProgress
import Hfrd.Api.CrashSafety
import Hfrd.Api.Watcher
import Hfrd.Api.MarkLoops
import Hfrd.Ansible.PreRunTest
import Hfrd.Ansible.ModuleTest
import Hfrd.Ansible.ParseTransient
import Hfrd.GoSdk.InvokeTransient
import Hfrd.Metrics.SuccessCount
import Hfrd.Metrics.Counter
import Hfrd.Metrics.PromPush
import Hfrd.Auth.JwtGate
import Hfrd.Auth.JwksLock
import Hfrd.Api.UnTarGz
import Hfrd.Report.AverageMetrics
import Hfrd.Report.TargetTps
import Hfrd.GoSdk.RangeParams
import Hfrd.GoSdk.SequentialString
import Hfrd.GoSdk.ServiceDiscovery
import Hfrd.GoSdk.SharedSdk
import Hfrd.Channel.WaitUpdate
import Hfrd.Channel.EncodeAndReplaceNull
import Hfrd.Api.GetItems
import Hfrd.GoSdk.ParamDecoders
import Hfrd.Channel.LastConfig
import Hfrd.Api.ServicePost
import Hfrd.Ansible.JobCommand
import Hfrd.Ansible.TestplanGen
import Hfrd.Icp.NetworkPost
import Hfrd.GoSdk.Interval
import Hfrd.Api.GenTarGz
import Hfrd.Api.ForceSave
import Hfrd.Go.JsonStruct
import Hfrd.Chaincode.Shim
import Hfrd.Chaincode.MarblesPrivate
import Hfrd.Chaincode.MarblesExpiry
import Hfrd.Chaincode.MarblesRange
import Hfrd.Chaincode.CryptoSample
import Hfrd.Chaincode.Fabcar
import Hfrd.GoSdk.ExecuteRuns
import Hfrd.Channel.Configtxlator
